import Mathlib.Data.Rat.Floor
import OmniRobot.Imu.YawHold

/-!
# Yaw hold turns the short way back

`compute_yaw_pid` turns against the wrapped heading error. The integral and the derivative can
oppose it, by what earlier calls have left, but only up to a bound: from an error of 1.8 degrees on
the proportional term decides the direction.

## Main results

* `bounded_run`: every sequence of calls and resets keeps the memory bounded;
* `rotationFor_of_bounded`: the direction of the rotation for a large error;
* `computeYawPid_shortWay`: both, for every call of every sequence.
-/

open Control (Gains Memory demand)

variable {F : Type*} [Field F] [LinearOrder F] [IsStrictOrderedRing F] [FloorRing F]

/-- What happens to the memory of the PID: a call, or a reset of its integral by `loop()`. -/
inductive PidOp (F : Type*) where
  | call (target current : F)
  | reset

/-- The state after a call or a reset. -/
def PidOp.run (s : Imu F) : PidOp F → Imu F
  | .call target current => (computeYawPid target current s).2
  | .reset => { s with pidIntegral := 0 }

theorem abs_wrapAngle_le (x : F) : |wrapAngle x| ≤ 180 :=
  abs_le.mpr ⟨(wrapAngle_mem x).1, (wrapAngle_mem x).2⟩

omit [FloorRing F] in
theorem yawGains_bound_nonneg : 0 ≤ (yawGains : Gains F).bound := by
  rw [yawGains]
  norm_num

/-- A call leaves the memory of the controller, updated with the wrapped error. -/
theorem computeYawPid_memory (target current : F) (s : Imu F) :
    (computeYawPid target current s).2.memory =
      s.memory.update yawGains (wrapAngle (target - current)) := by
  rw [computeYawPid_eq]
  rfl

/-- A call or a reset keeps the memory bounded. -/
theorem bounded_op {s : Imu F} (h : s.memory.Bounded yawGains 180) (op : PidOp F) :
    (op.run s).memory.Bounded yawGains 180 := by
  cases op with
  | call target current =>
    rw [PidOp.run, computeYawPid_memory]
    exact Memory.bounded_update yawGains_bound_nonneg (abs_wrapAngle_le _)
  | reset =>
    refine ⟨?_, h.prevErr_le⟩
    change |(0 : F)| ≤ _
    rw [abs_zero]
    exact yawGains_bound_nonneg

theorem bounded_run {s : Imu F} (h : s.memory.Bounded yawGains 180) (ops : List (PidOp F)) :
    (ops.foldl PidOp.run s).memory.Bounded yawGains 180 := by
  induction ops generalizing s with
  | nil => exact h
  | cons op ops ih => exact ih (bounded_op h op)

/-- A large error decides the direction of the rotation, whatever the memory. -/
theorem rotationFor_of_bounded {m : Memory F} (h : m.Bounded yawGains 180) (err : F) :
    (9 / 5 ≤ err → rotationFor (demand yawGains m err) < 0) ∧
      (err ≤ -(9 / 5) → 0 < rotationFor (demand yawGains m err)) := by
  -- the integral adds 4 at most, the derivative 0.18
  have hmoved : |demand yawGains m err - (3 + 1 / 1000) * err| ≤ 8 / 100 * 50 + 1 / 1000 * 180 :=
    h.abs_demand_sub_le yawGains_bound_nonneg (show (0 : F) ≤ 8 / 100 by norm_num)
      (show (0 : F) ≤ 1 / 1000 by norm_num)
  obtain ⟨hlo, hhi⟩ := abs_le.mp hmoved
  constructor
  · intro herr
    have hone : 1 ≤ demand yawGains m err := by linarith
    have hle := rotationFor_anti hone
    rw [rotationFor_one] at hle
    omega
  · intro herr
    have hone : demand yawGains m err ≤ -1 := by linarith
    have hge := rotationFor_anti hone
    rw [rotationFor_neg_one] at hge
    omega

/-- Yaw hold turns the short way back. After any sequence of calls and of resets of the integral,
from an integral and a last error of 0, a call with any target and heading ends with a rotation
within 250 and a bounded memory. The error `e` it has stored is the difference of the two, up to
whole turns, and within half a turn; from 1.8 degrees on the rotation is against it. -/
theorem computeYawPid_shortWay {s : Imu F} (hintegral : s.pidIntegral = 0)
    (hprev : s.pidPrevErr = 0) (ops : List (PidOp F)) (target current : F) :
    ∃ vr s' e, computeYawPid target current (ops.foldl PidOp.run s) = (vr, s') ∧
      (-250 ≤ vr ∧ vr ≤ 250) ∧ |s'.pidIntegral| ≤ 50 ∧ |s'.pidPrevErr| ≤ 180 ∧
      s'.pidPrevErr = e ∧ (∃ n : ℤ, e = target - current + 360 * n) ∧ |e| ≤ 180 ∧
      (1.8 ≤ |e| → vr ≠ 0 ∧ (0 < e → vr < 0) ∧ (e < 0 → 0 < vr)) := by
  have hstart : s.memory.Bounded yawGains 180 := by
    have hzero : s.memory = ⟨0, 0⟩ := by rw [Imu.memory, hintegral, hprev]
    rw [hzero]
    exact ⟨by rw [abs_zero]; exact yawGains_bound_nonneg, by rw [abs_zero]; norm_num⟩
  have hmem := bounded_run hstart ops
  have hmem' := bounded_op hmem (.call target current)
  have hresult := congrArg Prod.fst (computeYawPid_eq target current (ops.foldl PidOp.run s))
  refine ⟨_, (PidOp.call target current).run (ops.foldl PidOp.run s),
    wrapAngle (target - current), Prod.ext hresult rfl,
    abs_le.mp (abs_rotationFor_le _), hmem'.integral_le, hmem'.prevErr_le, rfl,
    wrapAngle_congr _, abs_wrapAngle_le _, fun hlarge => ?_⟩
  obtain ⟨hneg, hpos⟩ := rotationFor_of_bounded hmem (wrapAngle (target - current))
  have h18 : (1.8 : F) = 9 / 5 := by norm_num
  rw [h18] at hlarge
  rcases le_abs.mp hlarge with h | h
  · have hvr := hneg h
    exact ⟨hvr.ne, fun _ => hvr, fun he => absurd he (by linarith)⟩
  · have hvr := hpos (by linarith)
    exact ⟨hvr.ne', fun he => absurd he (by linarith), fun _ => hvr⟩

/-- The integral is wound up against the error by ten calls, and the rotation is still against
it. -/
theorem computeYawPid_shortWay_wound :
    ∃ vr s' e, computeYawPid (2 : ℚ) 0 ((List.replicate 10 (.call (-170) 0)).foldl PidOp.run
        (.init 0 0)) = (vr, s') ∧
      (-250 ≤ vr ∧ vr ≤ 250) ∧ |s'.pidIntegral| ≤ 50 ∧ |s'.pidPrevErr| ≤ 180 ∧
      s'.pidPrevErr = e ∧ (∃ n : ℤ, e = 2 - 0 + 360 * n) ∧ |e| ≤ 180 ∧
      (1.8 ≤ |e| → vr ≠ 0 ∧ (0 < e → vr < 0) ∧ (e < 0 → 0 < vr)) :=
  computeYawPid_shortWay (s := .init 0 0) rfl rfl (List.replicate 10 (.call (-170) 0)) 2 0
