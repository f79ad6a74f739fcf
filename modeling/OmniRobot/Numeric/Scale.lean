import Mathlib.Tactic.FieldSimp
import Mathlib.Tactic.Ring
import OmniRobot.Numeric.Trunc

/-!
# Scaling integers down to a bound

Several integers, none longer than `m`, are brought down to length `b` by one factor `b / m` and
truncated toward zero.

## Main results

* `abs_scaleZ_mul_sub_lt`: the scaled integer is off the exact proportion by less than one;
* `scaleZ_mono` and `scaleZ_neg`: scaling keeps order and is odd;
* `abs_scaleZ_le` and `scaleZ_of_abs_eq`: nothing exceeds the bound, and length `m` attains it.
-/

section

variable (F : Type*) [Field F] [LinearOrder F] [IsStrictOrderedRing F] [FloorRing F]

/-- The integer `w`, scaled by `b / m` and truncated. -/
def scaleZ (b m w : ℤ) : ℤ := truncZ ((w : F) * (b / m))

variable {F} {b m : ℤ}

/-- Scaling is odd. -/
theorem scaleZ_neg (b m w : ℤ) : scaleZ F b m (-w) = -scaleZ F b m w := by
  rw [scaleZ, Int.cast_neg, neg_mul, truncZ_neg, scaleZ]

/-- The factor of a nonnegative bound is nonnegative. -/
theorem scaleZ_factor_nonneg (hb : 0 ≤ b) (hm : 0 < m) : (0 : F) ≤ (b : F) / m :=
  div_nonneg (by exact_mod_cast hb) (by exact_mod_cast hm.le)

/-- Scaling keeps order. -/
theorem scaleZ_mono (hb : 0 ≤ b) (hm : 0 < m) : Monotone (scaleZ F b m) := by
  intro w₁ w₂ h
  apply truncZ_mono
  exact mul_le_mul_of_nonneg_right (by exact_mod_cast h) (scaleZ_factor_nonneg hb hm)

/-- Length `m` is brought to length `b`, on its side of 0. -/
theorem scaleZ_of_abs_eq (hm : 0 < m) {w : ℤ} (h : |w| = m) :
    scaleZ F b m w = b * w.sign := by
  have hm₀ : (m : F) ≠ 0 := by exact_mod_cast hm.ne'
  rcases (abs_eq hm.le).mp h with rfl | rfl
  · rw [Int.sign_eq_one_of_pos hm, mul_one, scaleZ, mul_div_cancel₀ _ hm₀, truncZ_intCast]
  · rw [scaleZ_neg, Int.sign_neg, Int.sign_eq_one_of_pos hm, scaleZ, mul_div_cancel₀ _ hm₀,
      truncZ_intCast, mul_neg_one]

/-- Nothing that is `m` long at most exceeds the bound. -/
theorem abs_scaleZ_le (hb : 0 ≤ b) (hm : 0 < m) {w : ℤ} (h : |w| ≤ m) :
    |scaleZ F b m w| ≤ b := by
  obtain ⟨hlo, hhi⟩ := abs_le.mp h
  -- the two ends go to the two bounds
  have htop : scaleZ F b m m = b := by
    rw [scaleZ_of_abs_eq hm (abs_of_pos hm), Int.sign_eq_one_of_pos hm, mul_one]
  have hbot : scaleZ F b m (-m) = -b := by
    rw [scaleZ_neg, htop]
  have hmono : Monotone (scaleZ F b m) := scaleZ_mono hb hm
  rw [abs_le]
  exact ⟨hbot.symm.trans_le (hmono hlo), (hmono hhi).trans_eq htop⟩

/-- A scaled integer is 0 or keeps its sign. -/
theorem scaleZ_eq_zero_or_sign (hb : 0 ≤ b) (hm : 0 < m) (w : ℤ) :
    scaleZ F b m w = 0 ∨ (scaleZ F b m w).sign = w.sign := by
  have hzero : scaleZ F b m 0 = 0 := by
    rw [scaleZ, Int.cast_zero, zero_mul, truncZ_zero]
  rcases lt_trichotomy w 0 with hw | rfl | hw
  · have h : scaleZ F b m w ≤ 0 := by
      rw [← hzero]
      exact scaleZ_mono hb hm hw.le
    rcases h.eq_or_lt with h₀ | hneg
    · exact .inl h₀
    · right
      rw [Int.sign_eq_neg_one_of_neg hneg, Int.sign_eq_neg_one_of_neg hw]
  · exact .inl hzero
  · have h : 0 ≤ scaleZ F b m w := by
      rw [← hzero]
      exact scaleZ_mono hb hm hw.le
    rcases h.eq_or_lt with h₀ | hpos
    · exact .inl h₀.symm
    · right
      rw [Int.sign_eq_one_of_pos hpos, Int.sign_eq_one_of_pos hw]

/-- The proportion of two scaled integers is kept up to less than one unit in each. -/
theorem abs_scaleZ_mul_sub_lt (hm : 0 < m) (w : ℤ) : |scaleZ F b m w * m - b * w| < m := by
  have hm₀ : (0 : F) < m := by exact_mod_cast hm
  have herr : |(w : F) * (b / m) - scaleZ F b m w| < 1 := abs_sub_truncZ_lt _
  have hcast : |(scaleZ F b m w : F) * m - b * w| < m := by
    calc |(scaleZ F b m w : F) * m - b * w|
        = |((w : F) * (b / m) - scaleZ F b m w) * m| := by
          rw [← abs_neg]
          congr 1
          field_simp
          ring
      _ = |(w : F) * (b / m) - scaleZ F b m w| * m := by rw [abs_mul, abs_of_pos hm₀]
      _ < 1 * m := mul_lt_mul_of_pos_right herr hm₀
      _ = m := one_mul _
  exact_mod_cast hcast

end
