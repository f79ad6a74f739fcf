import OmniRobot.Motor.Kinematics
import OmniRobot.Numeric.Scale

/-!
# Desaturation of the wheels

`omniKinematics` sends the raw mix of a motion as it is where every wheel can turn so fast, and
otherwise scales the four speeds by one factor, so that the largest becomes 255. The motion
keeps its direction up to the truncation of each wheel.

## Main results

* `speed_omniKinematics`: what each wheel is sent, in terms of the raw mix;
* `desaturates_omniKinematics`: it is the raw mix, brought down to 255;
* `omniKinematics_desaturates`: the clamp leaves it alone, it recovers the motion, and is odd.
-/

/-- A corner of the robot. -/
inductive Wheel where
  | fl | fr | rr | rl
  deriving DecidableEq

namespace Wheels

/-- The speed at a corner. -/
def speed (w : Wheels) : Wheel → ℤ
  | .fl => w.fl
  | .fr => w.fr
  | .rr => w.rr
  | .rl => w.rl

/-- The largest absolute value among the four speeds. -/
def largest (w : Wheels) : ℤ := max (max (max |w.fl| |w.fr|) |w.rr|) |w.rl|

theorem abs_speed_le_largest (w : Wheels) (i : Wheel) : |w.speed i| ≤ w.largest := by
  unfold largest
  cases i <;> simp [speed]

/-- Some wheel has the largest speed. -/
theorem exists_abs_speed_eq_largest (w : Wheels) : ∃ i, |w.speed i| = w.largest := by
  have h : |w.fl| = w.largest ∨ |w.fr| = w.largest ∨ |w.rr| = w.largest ∨
      |w.rl| = w.largest := by
    unfold largest
    omega
  rcases h with h | h | h | h
  exacts [⟨.fl, h⟩, ⟨.fr, h⟩, ⟨.rr, h⟩, ⟨.rl, h⟩]

@[ext]
theorem ext_speed {w₁ w₂ : Wheels} (h : ∀ i, w₁.speed i = w₂.speed i) : w₁ = w₂ :=
  Wheels.ext (h .fl) (h .fr) (h .rr) (h .rl)

instance : Neg Wheels := ⟨fun w => ⟨-w.fl, -w.fr, -w.rr, -w.rl⟩⟩

@[simp] theorem speed_neg (w : Wheels) (i : Wheel) : (-w).speed i = -w.speed i := by
  cases i <;> rfl

@[simp] theorem largest_neg (w : Wheels) : (-w).largest = w.largest := by
  change max (max (max |-w.fl| |-w.fr|) |-w.rr|) |-w.rl| = w.largest
  rw [abs_neg, abs_neg, abs_neg, abs_neg, largest]

end Wheels

/-- What desaturation is for. A mix that no wheel is too slow for stays as it is. Any other keeps,
in each wheel, its proportion up to less than one unit, its sign and the order, with the largest
speed at the bound. -/
structure Desaturates (bound : ℤ) (raw out : Wheels) : Prop where
  le : ∀ i, |out.speed i| ≤ bound
  eq_raw : raw.largest ≤ bound → out = raw
  proportion : bound < raw.largest →
    ∀ i, |out.speed i * raw.largest - bound * raw.speed i| < raw.largest
  sign : bound < raw.largest → ∀ i, out.speed i = 0 ∨ (out.speed i).sign = (raw.speed i).sign
  attained : bound < raw.largest →
    ∀ i, |raw.speed i| = raw.largest → out.speed i = bound * (raw.speed i).sign
  reached : bound < raw.largest → ∃ i, |out.speed i| = bound
  order : bound < raw.largest → ∀ i j, raw.speed i ≤ raw.speed j → out.speed i ≤ out.speed j

/-- The mix before the speeds are normalised. -/
def rawMix (vx vy vr : ℤ) : Wheels :=
  ⟨vx + vy + vr, vx - vy - vr, vx + vy - vr, vx - vy + vr⟩

theorem rawMix_neg (vx vy vr : ℤ) : rawMix (-vx) (-vy) (-vr) = -rawMix vx vy vr := by
  ext i
  rw [Wheels.speed_neg]
  cases i <;> simp only [rawMix, Wheels.speed] <;> ring

/-- What each wheel is sent: its raw speed, or that speed brought down with the largest one. -/
theorem speed_omniKinematics (vx vy vr : ℤ) (i : Wheel) :
    (omniKinematics vx vy vr).speed i =
      if 255 < (rawMix vx vy vr).largest then
        scaleZ ℚ 255 (rawMix vx vy vr).largest ((rawMix vx vy vr).speed i)
      else (rawMix vx vy vr).speed i := by
  unfold omniKinematics scaleZ Wheels.largest
  dsimp only [rawMix]
  cases i <;> simp only [Wheels.speed, Int.cast_ofNat] <;> split_ifs <;> rfl

/-- A mix that no wheel is too slow for is sent as it is. -/
theorem omniKinematics_of_le {vx vy vr : ℤ} (h : (rawMix vx vy vr).largest ≤ 255) :
    omniKinematics vx vy vr = rawMix vx vy vr := by
  ext i
  rw [speed_omniKinematics, if_neg (not_lt.mpr h)]

/-- The motion is odd. -/
theorem omniKinematics_neg (vx vy vr : ℤ) :
    omniKinematics (-vx) (-vy) (-vr) = -omniKinematics vx vy vr := by
  ext i
  rw [Wheels.speed_neg, speed_omniKinematics, speed_omniKinematics, rawMix_neg,
    Wheels.largest_neg, Wheels.speed_neg, scaleZ_neg]
  split_ifs <;> rfl

/-- The motors can turn as fast as they are told. -/
theorem abs_speed_omniKinematics_le (vx vy vr : ℤ) (i : Wheel) :
    |(omniKinematics vx vy vr).speed i| ≤ 255 := by
  have hle := (rawMix vx vy vr).abs_speed_le_largest i
  rw [speed_omniKinematics]
  split_ifs with h
  · exact abs_scaleZ_le (by norm_num) (by omega) hle
  · omega

theorem desaturates_omniKinematics (vx vy vr : ℤ) :
    Desaturates 255 (rawMix vx vy vr) (omniKinematics vx vy vr) := by
  refine ⟨abs_speed_omniKinematics_le vx vy vr, omniKinematics_of_le, fun hm i => ?_,
    fun hm i => ?_, fun hm i h => ?_, fun hm => ?_, fun hm i j hij => ?_⟩
  -- out of reach, every wheel is scaled
  all_goals have hm₀ : 0 < (rawMix vx vy vr).largest := by omega
  all_goals simp only [speed_omniKinematics, if_pos hm]
  · exact abs_scaleZ_mul_sub_lt hm₀ _
  · exact scaleZ_eq_zero_or_sign (by norm_num) hm₀ _
  · exact scaleZ_of_abs_eq hm₀ h
  · obtain ⟨i, hi⟩ := (rawMix vx vy vr).exists_abs_speed_eq_largest
    have hne : (rawMix vx vy vr).speed i ≠ 0 := abs_pos.mp (by omega)
    refine ⟨i, ?_⟩
    rw [scaleZ_of_abs_eq hm₀ hi, abs_mul, Int.abs_sign_of_ne_zero hne, mul_one]
    rfl
  · exact scaleZ_mono (by norm_num) hm₀ hij

/-- The clamp of `setMotorSpeed` leaves such a speed alone. -/
theorem clampSpeed_of_abs_le {speed : ℤ} (h : |speed| ≤ 255) : clampSpeed speed = speed := by
  obtain ⟨hlo, hhi⟩ := abs_le.mp h
  rw [clampSpeed, maxSpeed, minSpeed, if_neg (by omega), if_neg (by omega)]

/-- Desaturation preserves the motion. The speeds sent are the raw mix brought down to 255, and
the clamp of `setMotorSpeed` does not alter them. From a mix within reach the motion can be
recovered. The opposite motion gets the opposite speeds. -/
theorem omniKinematics_desaturates (vx vy vr : ℤ) :
    Desaturates 255 (rawMix vx vy vr) (omniKinematics vx vy vr) ∧
      (∀ i, clampSpeed ((omniKinematics vx vy vr).speed i) = (omniKinematics vx vy vr).speed i) ∧
      ((rawMix vx vy vr).largest ≤ 255 →
        (omniKinematics vx vy vr).fl + (omniKinematics vx vy vr).fr = 2 * vx ∧
        (omniKinematics vx vy vr).fl + (omniKinematics vx vy vr).rr -
          (omniKinematics vx vy vr).fr - (omniKinematics vx vy vr).rl = 4 * vy ∧
        (omniKinematics vx vy vr).fl + (omniKinematics vx vy vr).rl -
          (omniKinematics vx vy vr).fr - (omniKinematics vx vy vr).rr = 4 * vr) ∧
      omniKinematics (-vx) (-vy) (-vr) = -omniKinematics vx vy vr := by
  refine ⟨desaturates_omniKinematics vx vy vr,
    fun i => clampSpeed_of_abs_le (abs_speed_omniKinematics_le vx vy vr i), fun hm => ?_,
    omniKinematics_neg vx vy vr⟩
  rw [omniKinematics_of_le hm]
  refine ⟨?_, ?_, ?_⟩ <;> simp only [rawMix] <;> ring
