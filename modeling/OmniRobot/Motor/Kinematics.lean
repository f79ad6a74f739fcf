import Mathlib.Data.Rat.Floor
import OmniRobot.Motor.Pwm
import OmniRobot.Numeric.Trunc

/-!
# Omni-wheel kinematics

`omniKinematics` mixes a translation and a rotation into four wheel speeds, and scales all four
down where one of them exceeds 255. `driveOmni` hands them to the four drive motors, in slow decay.

## Main results

* `omniKinematics_eq_zero_iff`: only the zero motion leaves every wheel at 0;
* `driveOmni_atRest_iff`: the duties of the drive motors say the same.
-/

/-- The speeds of the front-left, front-right, rear-right and rear-left wheels. -/
@[ext]
structure Wheels where
  fl : ℤ
  fr : ℤ
  rr : ℤ
  rl : ℤ
  deriving DecidableEq

/-- `omni_kinematics`. -/
def omniKinematics (vx vy vr : ℤ) : Wheels :=
  let fl := vx + vy + vr
  let fr := vx - vy - vr
  let rr := vx + vy - vr
  let rl := vx - vy + vr
  let maxSpeed := max (max (max |fl| |fr|) |rr|) |rl|
  if 255 < maxSpeed then
    let scale : ℚ := 255 / maxSpeed
    ⟨truncZ (fl * scale), truncZ (fr * scale), truncZ (rr * scale), truncZ (rl * scale)⟩
  else ⟨fl, fr, rr, rl⟩

/-- `drive_omni`. -/
def driveOmni (d : Duties) (vx vy vr : ℤ) : Duties :=
  let w := omniKinematics vx vy vr
  let d := setMotorSpeed d 0 w.rl slowDecayMode
  let d := setMotorSpeed d 1 w.rr slowDecayMode
  let d := setMotorSpeed d 4 w.fl slowDecayMode
  setMotorSpeed d 5 w.fr slowDecayMode

/-! ### Rest -/

/-- A wheel scaled down from the largest speed still turns. -/
theorem truncZ_scale_ne_zero {w m : ℤ} (hm : 255 < m) (hw : |w| = m) :
    truncZ ((w : ℚ) * (255 / m)) ≠ 0 := by
  have hpos : (0 : ℚ) < m := by exact_mod_cast (by omega : (0 : ℤ) < m)
  have habs : |(w : ℚ)| = m := by exact_mod_cast congrArg (Int.cast (R := ℚ)) hw
  -- the scaled speed has size 255
  rw [Ne, truncZ_eq_zero_iff, abs_mul, habs, abs_of_pos (by positivity), mul_div_cancel₀ _ hpos.ne']
  norm_num

/-- Only the zero motion leaves every wheel at 0. -/
theorem omniKinematics_eq_zero_iff (vx vy vr : ℤ) :
    omniKinematics vx vy vr = ⟨0, 0, 0, 0⟩ ↔ vx = 0 ∧ vy = 0 ∧ vr = 0 := by
  constructor
  · intro h
    unfold omniKinematics at h
    dsimp only at h
    split_ifs at h with hmax
    · -- the wheel with the largest speed is not scaled to 0
      exfalso
      simp only [Wheels.mk.injEq] at h
      obtain ⟨hfl, hfr, hrr, hrl⟩ := h
      generalize hm : max (max (max |vx + vy + vr| |vx - vy - vr|) |vx + vy - vr|)
        |vx - vy + vr| = m at *
      have hcases : |vx + vy + vr| = m ∨ |vx - vy - vr| = m ∨ |vx + vy - vr| = m ∨
          |vx - vy + vr| = m := by
        omega
      rcases hcases with hw | hw | hw | hw
      · exact truncZ_scale_ne_zero hmax hw hfl
      · exact truncZ_scale_ne_zero hmax hw hfr
      · exact truncZ_scale_ne_zero hmax hw hrr
      · exact truncZ_scale_ne_zero hmax hw hrl
    · -- unscaled, the four sums determine the motion
      simp only [Wheels.mk.injEq] at h
      omega
  · rintro ⟨rfl, rfl, rfl⟩
    rfl

/-- The drive motors, in the order `driveOmni` sets them, with the wheels they turn. -/
def driveMotors : List (Fin 6 × (Wheels → ℤ)) :=
  [(0, Wheels.rl), (1, Wheels.rr), (4, Wheels.fl), (5, Wheels.fr)]

/-- The four drive motors stand still. -/
def WheelsAtRest (d : Duties) : Prop :=
  ∀ m ∈ driveMotors, d (dirChannel m.1) = 0 ∧ d (pwmChannel m.1) = 0

instance (d : Duties) : Decidable (WheelsAtRest d) :=
  inferInstanceAs (Decidable (∀ m ∈ driveMotors, d (dirChannel m.1) = 0 ∧ d (pwmChannel m.1) = 0))

/-- A call in slow decay leaves both channels of its motor at 0 exactly for speed 0. -/
theorem setMotorSpeed_rest_iff (i : Fin 6) (speed : ℤ) (d : Duties) :
    (setMotorSpeed d (i : ℤ) speed slowDecayMode (dirChannel i) = 0 ∧
      setMotorSpeed d (i : ℤ) speed slowDecayMode (pwmChannel i) = 0) ↔ speed = 0 := by
  obtain ⟨dir, pwm, hwave, hdir, hpwm⟩ :=
    run_of_drives (c := ⟨i, speed, slowDecayMode⟩) (i := i) ⟨rfl, .inr rfl⟩ d
  obtain ⟨-, -, hdiff, -, -, hstop⟩ := wave_spec hwave
  rw [SpeedCall.run] at hdir hpwm
  -- the difference of the two duties is the clamped speed
  constructor
  · rintro ⟨h₁, h₂⟩
    rw [h₁] at hdir
    rw [h₂] at hpwm
    rw [← clampSpeed_eq_zero_iff, ← hdiff, ← hdir, ← hpwm]
    rfl
  · intro h
    obtain ⟨h₁, h₂⟩ := hstop h
    rw [h₁] at hdir
    rw [h₂] at hpwm
    exact ⟨UInt32.toNat.inj (by exact_mod_cast hdir), UInt32.toNat.inj (by exact_mod_cast hpwm)⟩

/-- A call for another motor leaves the channels of a motor alone. -/
theorem setMotorSpeed_of_ne {i j : Fin 6} (h : i ≠ j) (speed decayMode : ℤ) (d : Duties) :
    setMotorSpeed d (j : ℤ) speed decayMode (dirChannel i) = d (dirChannel i) ∧
      setMotorSpeed d (j : ℤ) speed decayMode (pwmChannel i) = d (pwmChannel i) :=
  run_of_not_drives (c := ⟨j, speed, decayMode⟩) (fun hd => h (by
    have : (j : ℤ) = (i : ℤ) := hd.1
    omega)) d

/-- `driveOmni` as four calls for four motors. -/
theorem driveOmni_eq (d : Duties) (vx vy vr : ℤ) :
    driveOmni d vx vy vr =
      setMotorSpeed (setMotorSpeed (setMotorSpeed (setMotorSpeed d
        ((0 : Fin 6) : ℤ) (omniKinematics vx vy vr).rl slowDecayMode)
        ((1 : Fin 6) : ℤ) (omniKinematics vx vy vr).rr slowDecayMode)
        ((4 : Fin 6) : ℤ) (omniKinematics vx vy vr).fl slowDecayMode)
        ((5 : Fin 6) : ℤ) (omniKinematics vx vy vr).fr slowDecayMode := rfl

/-- The drive motors stand still after `driveOmni` exactly when the motion is zero. -/
theorem driveOmni_atRest_iff (d : Duties) (vx vy vr : ℤ) :
    WheelsAtRest (driveOmni d vx vy vr) ↔ vx = 0 ∧ vy = 0 ∧ vr = 0 := by
  have hne : ∀ {i j : Fin 6} (speed : ℤ) (d : Duties), i ≠ j →
      setMotorSpeed d (j : ℤ) speed slowDecayMode (dirChannel i) = d (dirChannel i) ∧
        setMotorSpeed d (j : ℤ) speed slowDecayMode (pwmChannel i) = d (pwmChannel i) :=
    fun speed d h => setMotorSpeed_of_ne h speed slowDecayMode d
  rw [← omniKinematics_eq_zero_iff, driveOmni_eq, Wheels.ext_iff]
  simp only [WheelsAtRest, driveMotors, List.forall_mem_cons, List.not_mem_nil,
    IsEmpty.forall_iff, implies_true, and_true]
  -- each motor keeps what its own call wrote
  rw [setMotorSpeed_rest_iff 5,
    (hne _ _ (show (4 : Fin 6) ≠ 5 by decide)).1, (hne _ _ (show (4 : Fin 6) ≠ 5 by decide)).2,
    setMotorSpeed_rest_iff 4,
    (hne _ _ (show (1 : Fin 6) ≠ 5 by decide)).1, (hne _ _ (show (1 : Fin 6) ≠ 5 by decide)).2,
    (hne _ _ (show (1 : Fin 6) ≠ 4 by decide)).1, (hne _ _ (show (1 : Fin 6) ≠ 4 by decide)).2,
    setMotorSpeed_rest_iff 1,
    (hne _ _ (show (0 : Fin 6) ≠ 5 by decide)).1, (hne _ _ (show (0 : Fin 6) ≠ 5 by decide)).2,
    (hne _ _ (show (0 : Fin 6) ≠ 4 by decide)).1, (hne _ _ (show (0 : Fin 6) ≠ 4 by decide)).2,
    (hne _ _ (show (0 : Fin 6) ≠ 1 by decide)).1, (hne _ _ (show (0 : Fin 6) ≠ 1 by decide)).2,
    setMotorSpeed_rest_iff 0]
  constructor
  · rintro ⟨hrl, hrr, hfl, hfr⟩
    exact ⟨hfl, hfr, hrr, hrl⟩
  · rintro ⟨hfl, hfr, hrr, hrl⟩
    exact ⟨hrl, hrr, hfl, hfr⟩
