import Mathlib.Algebra.Order.Field.Basic
import Mathlib.Algebra.Order.Floor.Ring
import Mathlib.Data.Int.ConditionallyCompleteOrder
import Mathlib.Tactic.Linarith

/-!
# Truncation toward zero

The conversion of a fractional number to an integer in C, over any ordered field with floors.

## Main results

* `abs_truncZ_le` and `abs_sub_truncZ_lt`: truncation shortens, by less than one;
* `truncZ_mono`: it keeps order;
* `truncZ_neg`: it is odd;
* `truncZ_eq_zero_iff`: it vanishes exactly below one.
-/

section

variable {F : Type*} [Field F] [LinearOrder F] [FloorRing F]

/-- Truncation toward zero. -/
def truncZ (x : F) : ℤ := if 0 ≤ x then ⌊x⌋ else ⌈x⌉

theorem truncZ_of_nonneg {x : F} (h : 0 ≤ x) : truncZ x = ⌊x⌋ := if_pos h

theorem truncZ_of_neg {x : F} (h : x < 0) : truncZ x = ⌈x⌉ := if_neg (not_le.mpr h)

/-- Truncation keeps order. -/
theorem truncZ_mono : Monotone (truncZ : F → ℤ) := by
  intro x y h
  rcases le_or_gt 0 x with hx | hx
  · rw [truncZ_of_nonneg hx, truncZ_of_nonneg (hx.trans h)]
    exact Int.floor_mono h
  · rw [truncZ_of_neg hx]
    -- a negative number truncates to 0 at most
    have hx0 : ⌈x⌉ ≤ 0 := Int.ceil_le.mpr (by simpa using hx.le)
    rcases le_or_gt 0 y with hy | hy
    · rw [truncZ_of_nonneg hy]
      exact hx0.trans (Int.floor_nonneg.mpr hy)
    · rw [truncZ_of_neg hy]
      exact Int.ceil_mono h

end

section

variable {F : Type*} [Field F] [LinearOrder F] [IsStrictOrderedRing F] [FloorRing F]

@[simp] theorem truncZ_intCast (n : ℤ) : truncZ (n : F) = n := by
  unfold truncZ
  split <;> simp

@[simp] theorem truncZ_zero : truncZ (0 : F) = 0 := by
  simpa using truncZ_intCast (F := F) 0

/-- Truncation is odd. -/
theorem truncZ_neg (x : F) : truncZ (-x) = -truncZ x := by
  -- the negation of a floor is a ceiling
  rcases lt_trichotomy x 0 with h | rfl | h
  · rw [truncZ_of_neg h, truncZ_of_nonneg (by linarith), Int.floor_neg]
  · simp
  · rw [truncZ_of_nonneg h.le, truncZ_of_neg (by linarith), Int.ceil_neg]

/-- The truncation lies between zero and the number, on the number's side. -/
theorem truncZ_bounds_of_nonneg {x : F} (h : 0 ≤ x) :
    (0 : F) ≤ truncZ x ∧ (truncZ x : F) ≤ x ∧ x < truncZ x + 1 := by
  rw [truncZ_of_nonneg h]
  exact ⟨by exact_mod_cast Int.floor_nonneg.mpr h, Int.floor_le x, Int.lt_floor_add_one x⟩

/-- Truncation does not lengthen. -/
theorem abs_truncZ_le (x : F) : |(truncZ x : F)| ≤ |x| := by
  rcases le_total 0 x with h | h
  · obtain ⟨h₀, h₁, -⟩ := truncZ_bounds_of_nonneg h
    rwa [abs_of_nonneg h₀, abs_of_nonneg h]
  · -- by oddness
    obtain ⟨h₀, h₁, -⟩ := truncZ_bounds_of_nonneg (neg_nonneg.mpr h)
    rw [truncZ_neg, Int.cast_neg] at h₀ h₁
    rw [← abs_neg, abs_of_nonneg h₀, ← abs_neg x, abs_of_nonneg (neg_nonneg.mpr h)]
    exact h₁

/-- Truncation changes a number by less than one. -/
theorem abs_sub_truncZ_lt (x : F) : |x - truncZ x| < 1 := by
  rcases le_total 0 x with h | h
  · obtain ⟨-, h₁, h₂⟩ := truncZ_bounds_of_nonneg h
    rw [abs_of_nonneg (by linarith)]
    linarith
  · obtain ⟨-, h₁, h₂⟩ := truncZ_bounds_of_nonneg (neg_nonneg.mpr h)
    rw [truncZ_neg, Int.cast_neg] at h₁ h₂
    rw [← abs_neg, abs_of_nonneg (by linarith)]
    linarith

/-- Exactly the numbers below one in size truncate to zero. -/
theorem truncZ_eq_zero_iff {x : F} : truncZ x = 0 ↔ |x| < 1 := by
  constructor
  · intro h
    simpa [h] using abs_sub_truncZ_lt x
  · intro h
    have h' : |((truncZ x : ℤ) : F)| < 1 := (abs_truncZ_le x).trans_lt h
    have h'' : |truncZ x| < 1 := by exact_mod_cast h'
    exact Int.abs_lt_one_iff.mp h''

end
