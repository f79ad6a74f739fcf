import Mathlib.Algebra.Order.Floor.Ring
import Mathlib.Data.Int.Cast.Lemmas
import Mathlib.Tactic.Linarith
import Mathlib.Tactic.Ring

/-!
# Wrapping an angle

The two loops that bring an angle in degrees into `[-180, 180]`, over any floor field: subtract
whole turns while it is above, then add whole turns while it is below. An angle already in range
is left alone, also at either end.

## Main results

* `wrapAngle_mem`: the result is in `[-180, 180]`;
* `wrapAngle_congr`: it differs from the angle by whole turns;
* `eq_wrapAngle`: it is the only such angle, up to the sign of `180`.
-/

/-! ### Literals

Named, so that 180 and 360 are the same terms in every module that writes them. -/

instance atLeastTwo_180 : Nat.AtLeastTwo 180 := ⟨by decide⟩

instance atLeastTwo_360 : Nat.AtLeastTwo 360 := ⟨by decide⟩

variable {F : Type*} [Field F] [LinearOrder F] [IsStrictOrderedRing F] [FloorRing F]

/-- A turn down from above 180. -/
theorem ceil_toNat_lt {x : F} (h : 180 < x) : ⌈x - 360⌉.toNat < ⌈x⌉.toNat := by
  have h₁ : (180 : ℤ) < ⌈x⌉ := by
    rw [Int.lt_ceil]
    exact_mod_cast h
  have h₂ : ⌈x - 360⌉ = ⌈x⌉ - 360 := by exact_mod_cast Int.ceil_sub_natCast x 360
  omega

/-- A turn up from below -180. -/
theorem neg_floor_toNat_lt {x : F} (h : x < -180) : (-⌊x + 360⌋).toNat < (-⌊x⌋).toNat := by
  have h₁ : ⌊x⌋ < (-180 : ℤ) := by
    rw [Int.floor_lt]
    exact_mod_cast h
  have h₂ : ⌊x + 360⌋ = ⌊x⌋ + 360 := by exact_mod_cast Int.floor_add_natCast x 360
  omega

/-- `while (x > 180) x -= 360;` -/
def wrapDown {F : Type*} [Field F] [LinearOrder F] [IsStrictOrderedRing F] [FloorRing F]
    (x : F) : F :=
  if 180 < x then wrapDown (x - 360) else x
termination_by ⌈x⌉.toNat
decreasing_by exact ceil_toNat_lt ‹_›

/-- `while (x < -180) x += 360;` -/
def wrapUp {F : Type*} [Field F] [LinearOrder F] [IsStrictOrderedRing F] [FloorRing F]
    (x : F) : F :=
  if x < -180 then wrapUp (x + 360) else x
termination_by (-⌊x⌋).toNat
decreasing_by exact neg_floor_toNat_lt ‹_›

/-- Both loops, in the order the code runs them. -/
def wrapAngle (x : F) : F := wrapUp (wrapDown x)

theorem wrapDown_of_le {x : F} (h : x ≤ 180) : wrapDown x = x := by
  rw [wrapDown, if_neg (not_lt.mpr h)]

theorem wrapUp_of_ge {x : F} (h : -180 ≤ x) : wrapUp x = x := by
  rw [wrapUp, if_neg (not_lt.mpr h)]

/-- The first loop ends at most at `180`, whole turns lower, and overshoots only where it had to
start. -/
theorem wrapDown_spec (x : F) :
    wrapDown x ≤ 180 ∧ (∃ k : ℤ, wrapDown x = x + 360 * k) ∧ (180 < x → -180 < wrapDown x) := by
  rw [wrapDown]
  split
  next h =>
    obtain ⟨hle, ⟨k, hk⟩, hgt⟩ := wrapDown_spec (x - 360)
    refine ⟨hle, ⟨k - 1, by rw [hk]; push_cast; ring⟩, fun _ => ?_⟩
    -- the last turn started above 180
    by_cases h' : 180 < x - 360
    · exact hgt h'
    · rw [wrapDown_of_le (not_lt.mp h')]
      linarith
  next h => exact ⟨not_lt.mp h, ⟨0, by simp⟩, fun h' => absurd h' h⟩
termination_by ⌈x⌉.toNat
decreasing_by exact ceil_toNat_lt ‹_›

/-- The second loop ends at least at `-180`, whole turns higher, and at most at `180` when it
starts there. -/
theorem wrapUp_spec (x : F) :
    -180 ≤ wrapUp x ∧ (∃ k : ℤ, wrapUp x = x + 360 * k) ∧ (x ≤ 180 → wrapUp x ≤ 180) := by
  rw [wrapUp]
  split
  next h =>
    obtain ⟨hge, ⟨k, hk⟩, hle⟩ := wrapUp_spec (x + 360)
    exact ⟨hge, ⟨k + 1, by rw [hk]; push_cast; ring⟩, fun _ => hle (by linarith)⟩
  next h => exact ⟨not_lt.mp h, ⟨0, by simp⟩, id⟩
termination_by (-⌊x⌋).toNat
decreasing_by exact neg_floor_toNat_lt ‹_›

/-- A wrapped angle is in `[-180, 180]`. -/
theorem wrapAngle_mem (x : F) : -180 ≤ wrapAngle x ∧ wrapAngle x ≤ 180 :=
  ⟨(wrapUp_spec _).1, (wrapUp_spec _).2.2 (wrapDown_spec x).1⟩

/-- Wrapping changes an angle by whole turns. -/
theorem wrapAngle_congr (x : F) : ∃ k : ℤ, wrapAngle x = x + 360 * k := by
  obtain ⟨-, ⟨j, hj⟩, -⟩ := wrapDown_spec x
  obtain ⟨-, ⟨k, hk⟩, -⟩ := wrapUp_spec (wrapDown x)
  exact ⟨j + k, by rw [wrapAngle, hk, hj]; push_cast; ring⟩

/-- An angle in range is left alone. -/
theorem wrapAngle_of_mem {x : F} (h₁ : -180 ≤ x) (h₂ : x ≤ 180) : wrapAngle x = x := by
  rw [wrapAngle, wrapDown_of_le h₂, wrapUp_of_ge h₁]

/-- An angle in range that differs from `x` by whole turns is the wrapped `x`, except that `180`
and `-180` stand for each other. -/
theorem eq_wrapAngle {x d : F} (h₁ : -180 ≤ d) (h₂ : d ≤ 180) {k : ℤ} (hk : d = x + 360 * k) :
    d = wrapAngle x ∨ (|d| = 180 ∧ d = -wrapAngle x) := by
  obtain ⟨hw₁, hw₂⟩ := wrapAngle_mem x
  obtain ⟨j, hj⟩ := wrapAngle_congr x
  have hdiff : d - wrapAngle x = 360 * ((k - j : ℤ) : F) := by
    rw [hk, hj]
    push_cast
    ring
  -- two angles in range are at most one turn apart, and then at opposite ends
  have hle : ((k - j : ℤ) : F) ≤ 1 := by linarith
  have hge : (-1 : F) ≤ ((k - j : ℤ) : F) := by linarith
  have hle' : k - j ≤ 1 := by exact_mod_cast hle
  have hge' : -1 ≤ k - j := by exact_mod_cast hge
  rcases (by omega : k - j = 0 ∨ k - j = 1 ∨ k - j = -1) with h | h | h <;>
    rw [h] at hdiff <;> push_cast at hdiff
  · left
    linarith
  · have hd : d = 180 := by linarith
    have hw : wrapAngle x = -180 := by linarith
    right
    exact ⟨by rw [hd, abs_of_pos (by norm_num)], by rw [hd, hw, neg_neg]⟩
  · have hd : d = -180 := by linarith
    have hw : wrapAngle x = 180 := by linarith
    right
    exact ⟨by rw [hd, abs_neg, abs_of_pos (by norm_num)], by rw [hd, hw]⟩
