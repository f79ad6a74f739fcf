import Mathlib.Data.List.Induction
import OmniRobot.Control.Pid
import OmniRobot.Imu.Update

/-!
# Yaw hold as PID control

`computeYawPid` is a PID controller on the wrapped heading error. One tick integrates the yaw; with
yaw hold on it drives the controller's demand, bounded and truncated, and otherwise the stick
command, and leaves the controller's memory alone.

## Main results

* `computeYawPid_eq`: the PID of the source is the controller of `Control`;
* `imuTick_hold`, `imuTick_stick`: one tick;
* `ticks_hold`, `ticks_stick`: any number of ticks.
-/

open Control (Gains Memory clampTo demand lastDemand)

variable {F : Type*} [Field F] [LinearOrder F] [IsStrictOrderedRing F] [FloorRing F]

/-- The gains compiled in. -/
def yawGains : Gains F := ⟨kp, ki, kd, 50⟩

/-- The memory of the yaw controller. -/
def Imu.memory (s : Imu F) : Memory F := ⟨s.pidIntegral, s.pidPrevErr⟩

/-- The rotation for a demand: bounded, truncated and against the error. -/
def rotationFor (x : F) : ℤ := truncZ (clampTo 250 (-x))

theorem constrain_eq {x b : F} (hb : 0 ≤ b) : constrain x (-b) b = clampTo b x := by
  unfold constrain clampTo
  -- below, above and within the bound
  split_ifs with h₁ h₂
  · rw [max_eq_left ((min_le_right b x).trans h₁.le)]
  · rw [min_eq_left h₂.le, max_eq_right (by linarith)]
  · rw [min_eq_right (not_lt.mp h₂), max_eq_right (not_lt.mp h₁)]

/-- The PID of the source. -/
theorem computeYawPid_eq (target current : F) (s : Imu F) :
    computeYawPid target current s =
      (rotationFor (demand yawGains s.memory (wrapAngle (target - current))),
        { s with
          pidIntegral := (s.memory.update yawGains (wrapAngle (target - current))).integral
          pidPrevErr := wrapAngle (target - current) }) := by
  unfold computeYawPid
  dsimp only
  rw [constrain_eq (by norm_num), constrain_eq (by norm_num)]
  rfl

/-- A demand drives no rotation exactly when it is below one. -/
theorem rotationFor_eq_zero_iff {x : F} : rotationFor x = 0 ↔ |x| < 1 := by
  rw [rotationFor, truncZ_eq_zero_iff, clampTo, abs_lt, abs_lt, lt_max_iff, max_lt_iff,
    min_lt_iff, lt_min_iff]
  constructor
  · rintro ⟨h₁ | h₁, h₂, h₃ | h₃⟩ <;> constructor <;> linarith
  · rintro ⟨h₁, h₂⟩
    exact ⟨.inr ⟨by norm_num, by linarith⟩, by norm_num, .inr (by linarith)⟩

/-- A larger demand never turns less far against the error. -/
theorem rotationFor_anti : Antitone (rotationFor : F → ℤ) := by
  intro x y h
  exact truncZ_mono (max_le_max le_rfl (min_le_min le_rfl (neg_le_neg h)))

/-- No rotation exceeds 250. -/
theorem abs_rotationFor_le (x : F) : |rotationFor x| ≤ 250 := by
  have hclamp : |clampTo 250 (-x)| ≤ 250 := Control.abs_clampTo_le (by norm_num) (-x)
  have hle : |((rotationFor x : ℤ) : F)| ≤ 250 := (abs_truncZ_le _).trans hclamp
  exact_mod_cast hle

theorem rotationFor_one : rotationFor (1 : F) = -1 := by
  have hclamp : clampTo 250 (-(1 : F)) = ((-1 : ℤ) : F) := by
    rw [clampTo, min_eq_right (by norm_num), max_eq_right (by norm_num)]
    norm_num
  rw [rotationFor, hclamp, truncZ_intCast]

theorem rotationFor_neg_one : rotationFor (-1 : F) = 1 := by
  have hclamp : clampTo 250 (-(-1 : F)) = ((1 : ℤ) : F) := by
    rw [clampTo, min_eq_right (by norm_num), max_eq_right (by norm_num)]
    norm_num
  rw [rotationFor, hclamp, truncZ_intCast]

/-! ### Ticks -/

/-- The yaw after the burst of one tick. -/
def Imu.nextYaw (s : Imu F) (buf : Burst) : F :=
  integrateYaw s.gDeadzone (correctedRate s.gzOffset buf) s.gImu.yaw

/-- One tick with yaw hold on. -/
theorem imuTick_hold (target : F) (vrCmd : ℤ) (s : Imu F) (buf : Burst) :
    imuTick true target vrCmd s buf = { s with
      gImu := (imuTick true target vrCmd s buf).gImu
      yawAngle := s.nextYaw buf
      pidIntegral :=
        (s.memory.update yawGains (wrapAngle (target - s.nextYaw buf))).integral
      pidPrevErr := wrapAngle (target - s.nextYaw buf)
      vrFinal := rotationFor (demand yawGains s.memory (wrapAngle (target - s.nextYaw buf))) } := by
  unfold imuTick
  dsimp only
  rw [if_pos rfl, computeYawPid_eq]
  rfl

/-- One tick with yaw hold off. -/
theorem imuTick_stick (target : F) (vrCmd : ℤ) (s : Imu F) (buf : Burst) :
    imuTick false target vrCmd s buf = { s with
      gImu := (imuTick false target vrCmd s buf).gImu
      yawAngle := s.nextYaw buf
      vrFinal := vrCmd } := rfl

/-- Either way the tick takes the yaw and the sensor values from the burst alone. -/
theorem imuTick_gImu (holdEnabled : Bool) (target : F) (vrCmd : ℤ) (s : Imu F) (buf : Burst) :
    (imuTick holdEnabled target vrCmd s buf).gImu =
      ⟨s.nextYaw buf, correctedRate s.gzOffset buf,
        int16OfBytes (buf 7) (buf 6) * accelSensitivity,
        int16OfBytes (buf 9) (buf 8) * accelSensitivity,
        int16OfBytes (buf 11) (buf 10) * accelSensitivity⟩ := by
  cases holdEnabled <;> rfl

/-- The yaw after a list of bursts. -/
def yawAfter (gzOffset gDeadzone yaw : F) (bufs : List Burst) : F :=
  bufs.foldl (fun yaw buf => integrateYaw gDeadzone (correctedRate gzOffset buf) yaw) yaw

/-- The heading error at each of a list of bursts. -/
def yawErrors (gzOffset gDeadzone target yaw : F) : List Burst → List F
  | [] => []
  | buf :: bufs =>
      let yaw := integrateYaw gDeadzone (correctedRate gzOffset buf) yaw
      wrapAngle (target - yaw) :: yawErrors gzOffset gDeadzone target yaw bufs

section

variable (gzOffset gDeadzone target yaw : F)

omit [IsStrictOrderedRing F] [FloorRing F] in
theorem yawAfter_append (bufs bufs' : List Burst) :
    yawAfter gzOffset gDeadzone yaw (bufs ++ bufs') =
      yawAfter gzOffset gDeadzone (yawAfter gzOffset gDeadzone yaw bufs) bufs' :=
  List.foldl_append

theorem yawErrors_append (bufs bufs' : List Burst) :
    yawErrors gzOffset gDeadzone target yaw (bufs ++ bufs') =
      yawErrors gzOffset gDeadzone target yaw bufs ++
        yawErrors gzOffset gDeadzone target (yawAfter gzOffset gDeadzone yaw bufs) bufs' := by
  induction bufs generalizing yaw with
  | nil => rfl
  | cons buf bufs ih => simp only [List.cons_append, yawErrors, ih, yawAfter, List.foldl_cons]

@[simp] theorem length_yawErrors (bufs : List Burst) :
    (yawErrors gzOffset gDeadzone target yaw bufs).length = bufs.length := by
  induction bufs generalizing yaw with
  | nil => rfl
  | cons buf bufs ih => simp [yawErrors, ih]

end

/-- The heading errors of ticks from a state. -/
def Imu.errors (s : Imu F) (target : F) (bufs : List Burst) : List F :=
  yawErrors s.gzOffset s.gDeadzone target s.gImu.yaw bufs

/-- What ticks leave as it was. -/
structure Imu.SameSettings (s s' : Imu F) : Prop where
  gzOffset_eq : s'.gzOffset = s.gzOffset
  gDeadzone_eq : s'.gDeadzone = s.gDeadzone
  yawTarget_eq : s'.yawTarget = s.yawTarget
  imuTickPending_eq : s'.imuTickPending = s.imuTickPending
  yawHoldEnabled_eq : s'.yawHoldEnabled = s.yawHoldEnabled

theorem ticks_sameSettings (holdEnabled : Bool) (target : F) (vrCmd : ℤ) (s : Imu F)
    (bufs : List Burst) :
    s.SameSettings (bufs.foldl (imuTick holdEnabled target vrCmd) s) := by
  induction bufs generalizing s with
  | nil => exact ⟨rfl, rfl, rfl, rfl, rfl⟩
  | cons buf bufs ih =>
    obtain ⟨h₁, h₂, h₃, h₄, h₅⟩ := ih (imuTick holdEnabled target vrCmd s buf)
    rw [List.foldl_cons]
    cases holdEnabled <;> exact ⟨h₁, h₂, h₃, h₄, h₅⟩

/-- Ticks with yaw hold on: the controller's memory and demand after the errors of the bursts. -/
structure Imu.Held (s : Imu F) (target : F) (bufs : List Burst) (s' : Imu F) : Prop where
  settings : s.SameSettings s'
  yaw_eq : s'.gImu.yaw = yawAfter s.gzOffset s.gDeadzone s.gImu.yaw bufs
  memory_eq : s'.memory = s.memory.after yawGains (s.errors target bufs)
  vrFinal_eq : s'.vrFinal = if bufs = [] then s.vrFinal else
    rotationFor (lastDemand yawGains s.memory (s.errors target bufs))

/-- Yaw hold is the controller run on the errors of the bursts. -/
theorem ticks_hold (target : F) (vrCmd : ℤ) (s : Imu F) (bufs : List Burst) :
    s.Held target bufs (bufs.foldl (imuTick true target vrCmd) s) := by
  induction bufs using List.reverseRecOn with
  | nil => exact ⟨⟨rfl, rfl, rfl, rfl, rfl⟩, rfl, rfl, rfl⟩
  | append_singleton bufs buf ih =>
    have hsettings := ticks_sameSettings true target vrCmd s (bufs ++ [buf])
    rw [List.foldl_append, List.foldl_cons, List.foldl_nil] at hsettings ⊢
    generalize bufs.foldl (imuTick true target vrCmd) s = s' at ih hsettings ⊢
    obtain ⟨⟨hoff, hdz, -, -, -⟩, hyaw, hmemory, -⟩ := ih
    -- the last tick integrates from the yaw that the earlier bursts have left
    have hnext : s'.nextYaw buf = yawAfter s.gzOffset s.gDeadzone s.gImu.yaw (bufs ++ [buf]) := by
      rw [yawAfter_append, ← hyaw, Imu.nextYaw, hoff, hdz]
      rfl
    have herrors : s.errors target (bufs ++ [buf]) =
        s.errors target bufs ++ [wrapAngle (target - s'.nextYaw buf)] := by
      rw [hnext, yawAfter_append]
      exact yawErrors_append _ _ _ _ _ _
    rw [imuTick_hold] at hsettings ⊢
    refine ⟨hsettings, ?_, ?_, ?_⟩
    · rw [← hnext, imuTick_gImu]
    · rw [herrors, Memory.after_append, ← hmemory]
      rfl
    · rw [if_neg (by simp), herrors, Control.lastDemand_concat, ← hmemory]

/-- With yaw hold off, ticks leave the controller's memory alone and drive the stick command. -/
theorem ticks_stick (target : F) (vrCmd : ℤ) (s : Imu F) (bufs : List Burst) :
    (bufs.foldl (imuTick false target vrCmd) s).memory = s.memory ∧
      (bufs.foldl (imuTick false target vrCmd) s).vrFinal =
        if bufs = [] then s.vrFinal else vrCmd := by
  induction bufs using List.reverseRecOn with
  | nil => exact ⟨rfl, rfl⟩
  | append_singleton bufs buf ih =>
    rw [List.foldl_append, List.foldl_cons, List.foldl_nil, imuTick_stick, if_neg (by simp)]
    exact ⟨ih.1, rfl⟩
