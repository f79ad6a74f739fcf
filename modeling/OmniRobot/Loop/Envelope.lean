import OmniRobot.Imu.Registers
import OmniRobot.Imu.ShortWay
import OmniRobot.Loop.Backlog
import OmniRobot.Loop.Drivetrain
import OmniRobot.Loop.Sticks

/-!
# The envelope of all runs

`setup()` leaves every variable in its range, and so does every call of `loop()`, whatever the
radio, the buttons, the sensor and the clocks do. No command exceeds the fastest speed limit, and
rotating the stick in headless mode does not make it longer, so neither `int` nor the wheels get
more than they can take.

## Main results

* `inRange_step`: an iteration keeps every variable in its range;
* `truncated_rotation_le`: a rotated and truncated stick command is no longer than the command;
* `envelope_run`: the program from `setup()` on.
-/

open Control (Memory)

/-! ### Setup -/

/-- `setup()`, as far as the motor pins and the variables of the program go: the calls that
configure the pins, the variables, and the world. Nothing if `imu_init` ends in its endless loop. -/
def Spi.setup {F : Type} [Field F] [LinearOrder F] [IsStrictOrderedRing F] [FloorRing F]
    {σ : Type} (bus : Spi σ) (sqrtf : F → F) (s : σ) : Option (List PinCall × LoopState F × σ) :=
  let calls := motorInit
  (bus.imuInit sqrtf (.init 0 (2 / 10)) s).map fun r =>
    (calls, { LoopState.init 0 (2 / 10) with imu := r.1 }, r.2)

variable {F : Type} [Field F] [LinearOrder F] [IsStrictOrderedRing F] [FloorRing F]

/-- After `setup()` the loop starts from power-on, with an offset that the calibration can leave. -/
theorem setup_eq {σ : Type} {bus : Spi σ} {sqrtf : F → F} {s s' : σ} {calls : List PinCall}
    {l : LoopState F} (h : bus.setup sqrtf s = some (calls, l, s')) :
    calls = motorInit ∧
      ∃ gzOffset gDeadzone, l = .init gzOffset gDeadzone ∧ |gzOffset| ≤ 286.72 := by
  obtain ⟨⟨imu, s''⟩, himu, heq⟩ := Option.map_eq_some_iff.mp h
  simp only [Prod.mk.injEq] at heq
  obtain ⟨rfl, rfl, -⟩ := heq
  obtain ⟨first, second, noise, -, -, rfl⟩ := imuInit_eq_some bus himu
  exact ⟨rfl, _, _, rfl, abs_lsm6ds3CalibrateGyro_le _ _⟩

/-! ### Ranges -/

/-- The values of `speed`. -/
def speeds : List ℤ := [0, 114, 164, 250]

/-- The ranges of the pilot's commands. -/
structure Pilot.InRange (p : Pilot) : Prop where
  speed_mem : p.speed ∈ speeds
  vxCmd_le : |p.vxCmd| ≤ 250
  vyCmd_le : |p.vyCmd| ≤ 250
  vrCmd_le : |p.vrCmd| ≤ 250

/-- The ranges of the IMU variables. -/
structure Imu.InRange (s : Imu F) : Prop where
  gzOffset_le : |s.gzOffset| ≤ 286.72
  yawAngle_eq : s.yawAngle = s.gImu.yaw
  yawAngle_le : |s.yawAngle| ≤ 180
  yawTarget_le : |s.yawTarget| ≤ 180
  memory_le : s.memory.Bounded yawGains 180
  vrFinal_le : |s.vrFinal| ≤ 250

/-- The ranges of all variables of the loop. -/
structure LoopState.InRange (s : LoopState F) : Prop where
  pilot : s.pilot.InRange
  imu : s.imu.InRange
  headlessYawRef_le : |s.headlessYawRef| ≤ 180

omit [FloorRing F] in
theorem inRange_init {gzOffset : F} (h : |gzOffset| ≤ 286.72) (gDeadzone : F) :
    (LoopState.init gzOffset gDeadzone).InRange := by
  have hzero : |(0 : F)| ≤ 180 := by
    rw [abs_zero]
    norm_num
  have hstill : |(0 : ℤ)| ≤ 250 := by decide
  refine ⟨⟨List.mem_cons_self, hstill, hstill, hstill⟩,
    ⟨h, rfl, hzero, hzero, ⟨?_, hzero⟩, hstill⟩, hzero⟩
  change |(0 : F)| ≤ _
  rw [abs_zero]
  exact yawGains_bound_nonneg

/-- The speed limit is one of the values of `speed`. -/
theorem speedLimit_mem (values : ℕ → UInt16) (circle : Bool) {speed : ℤ} (h : speed ∈ speeds) :
    speedLimit values circle speed ∈ speeds := by
  have h₁ : (150 - 36 : ℤ) ∈ speeds := by decide
  have h₂ : (200 - 36 : ℤ) ∈ speeds := by decide
  have h₃ : (250 : ℤ) ∈ speeds := by decide
  unfold speedLimit
  dsimp only
  split_ifs <;> assumption

theorem speeds_bounds : ∀ speed ∈ speeds, 0 ≤ speed ∧ speed ≤ 250 := by decide

/-- Without a mode the commands stay. -/
theorem Pilot.update_none {values : ℕ → UInt16} (h : selectMode values = .none) (circle : Bool)
    (p : Pilot) : (p.update values circle).vxCmd = p.vxCmd ∧
      (p.update values circle).vyCmd = p.vyCmd ∧ (p.update values circle).vrCmd = p.vrCmd := by
  simp [Pilot.update, h]

/-- The RC stage keeps the commands in range. -/
theorem inRange_update (values : ℕ → UInt16) (circle : Bool) {p : Pilot} (h : p.InRange) :
    (p.update values circle).InRange := by
  have hobeys := Pilot.obeys_update values circle p
  have hspeed : (p.update values circle).speed ∈ speeds := by
    rw [Pilot.update_speed]
    exact speedLimit_mem values circle h.speed_mem
  obtain ⟨h₀, h₂₅₀⟩ := speeds_bounds _ hspeed
  have hcmd : ∀ raw, |mapRC raw (p.update values circle).speed| ≤ 250 := fun raw =>
    (abs_mapRC_le h₀ (by omega) raw).trans h₂₅₀
  have hturn : |mapRC (values 0) 120| ≤ 250 :=
    (abs_mapRC_le (by decide) (by decide) _).trans (by decide)
  cases hmode : (p.update values circle).mode with
  | tuPilot =>
    obtain ⟨hx, hy, hr⟩ := hobeys.tuPilot hmode
    refine ⟨hspeed, ?_, ?_, ?_⟩
    · rw [hx]; exact hcmd _
    · rw [hy]; exact hcmd _
    · rw [hr]; exact hcmd _
  | phucPilot =>
    obtain ⟨hx, hy, hr⟩ := hobeys.phucPilot hmode
    refine ⟨hspeed, ?_, ?_, ?_⟩
    · rw [hx]; exact hcmd _
    · rw [hy]; exact hcmd _
    · rw [hr]; exact hturn
  | none =>
    obtain ⟨hx, hy, hr⟩ := Pilot.update_none (hobeys.mode_eq.symm.trans hmode) circle p
    exact ⟨hspeed, hx ▸ h.vxCmd_le, hy ▸ h.vyCmd_le, hr ▸ h.vrCmd_le⟩

/-- The ticks of a call write one heading to both of its places. -/
theorem ticks_yawAngle (holdEnabled : Bool) (target : F) (vrCmd : ℤ) (bufs : List Burst)
    {s : Imu F} (h : s.yawAngle = s.gImu.yaw) :
    (bufs.foldl (imuTick holdEnabled target vrCmd) s).yawAngle =
      (bufs.foldl (imuTick holdEnabled target vrCmd) s).gImu.yaw := by
  induction bufs generalizing s with
  | nil => exact h
  | cons buf bufs ih =>
    refine ih ?_
    cases holdEnabled <;> rfl

/-- Every heading error is within half a turn. -/
theorem abs_le_of_mem_yawErrors {gzOffset gDeadzone target : F} {bufs : List Burst} {yaw e : F}
    (h : e ∈ yawErrors gzOffset gDeadzone target yaw bufs) : |e| ≤ 180 := by
  induction bufs generalizing yaw with
  | nil => cases h
  | cons buf bufs ih =>
    rw [yawErrors, List.mem_cons] at h
    rcases h with rfl | h
    · exact abs_wrapAngle_le _
    · exact ih h

/-- The IMU stage keeps the IMU variables in range. -/
theorem inRange_imuStage (i : Input) {vrCmd : ℤ} (hcmd : |vrCmd| ≤ 250) {imu : Imu F}
    (h : imu.InRange) : (imuStage i vrCmd imu).InRange := by
  obtain ⟨hyaw, hoff, -⟩ := imuStage_heading i vrCmd imu
  have hangle : (imuStage i vrCmd imu).yawAngle = (imuStage i vrCmd imu).gImu.yaw := by
    rw [imuStage_eq]
    refine ticks_yawAngle _ _ _ _ ?_
    unfold switchYawHold
    split_ifs <;> exact h.yawAngle_eq
  have hyaw' : |(imuStage i vrCmd imu).yawAngle| ≤ 180 := by
    rw [hangle, hyaw]
    exact (yawAfter_spec h.gzOffset_le _ _ (h.yawAngle_eq ▸ h.yawAngle_le)).1
  by_cases hturn : 20 < |vrCmd|
  · obtain ⟨hmemory, hvr⟩ := imuStage_stick i hturn imu
    refine ⟨hoff ▸ h.gzOffset_le, hangle, hyaw', ?_, ?_, ?_⟩
    · -- the target is the yaw before the ticks
      have htarget : (imuStage i vrCmd imu).yawTarget = imu.yawAngle := by
        rw [imuStage_eq, (ticks_sameSettings _ _ _ _ _).yawTarget_eq]
        exact congrArg Imu.yawTarget (if_pos hturn)
      rw [htarget]
      exact h.yawAngle_le
    · rw [hmemory]
      refine ⟨?_, h.memory_le.prevErr_le⟩
      rw [abs_zero]
      exact yawGains_bound_nonneg
    · rw [hvr]
      split_ifs
      exacts [h.vrFinal_le, hcmd]
  · obtain ⟨hsettings, -, hmemory, hvr⟩ := imuStage_hold i hturn imu
    refine ⟨hoff ▸ h.gzOffset_le, hangle, hyaw', hsettings.yawTarget_eq ▸ h.yawTarget_le, ?_, ?_⟩
    · rw [hmemory]
      exact h.memory_le.after yawGains_bound_nonneg fun e he => abs_le_of_mem_yawErrors he
    · rw [hvr]
      split_ifs
      exacts [h.vrFinal_le, abs_rotationFor_le _]

/-- An iteration keeps every variable in its range. -/
theorem inRange_step {trig : Trig F} {i : Input} {s : LoopState F}
    {r : LoopState F × Observation} (h : Iterates trig i s r) (hs : s.InRange) : r.1.InRange := by
  have hpilot : r.1.pilot.InRange := by
    by_cases hserial : i.serial.val = []
    · rw [(h.silent hserial).2.1]
      exact hs.pilot
    · rw [(h.heard hserial).1]
      exact inRange_update _ _ hs.pilot
  have himu : r.1.imu.InRange := by
    rw [h.imu_eq]
    exact inRange_imuStage i hpilot.vrCmd_le hs.imu
  refine ⟨hpilot, himu, ?_⟩
  rw [h.headlessYawRef_eq]
  split_ifs
  exacts [himu.yawAngle_le, hs.headlessYawRef_le]

/-! ### The drive -/

/-- A rotated and truncated command is no longer than the command. -/
theorem truncated_rotation_le {c s : F} (h : s ^ 2 + c ^ 2 = 1) (x y : ℤ) :
    truncZ ((x : F) * c + y * s) ^ 2 + truncZ (-(x : F) * s + y * c) ^ 2 ≤ x ^ 2 + y ^ 2 := by
  have htrunc : ∀ z : F, ((truncZ z : ℤ) : F) ^ 2 ≤ z ^ 2 := fun z =>
    sq_le_sq.mpr (abs_truncZ_le z)
  have hrotate : ((x : F) * c + y * s) ^ 2 + (-(x : F) * s + y * c) ^ 2 =
      (x : F) ^ 2 + (y : F) ^ 2 := by
    calc ((x : F) * c + y * s) ^ 2 + (-(x : F) * s + y * c) ^ 2
        = ((x : F) ^ 2 + (y : F) ^ 2) * (s ^ 2 + c ^ 2) := by ring
      _ = (x : F) ^ 2 + (y : F) ^ 2 := by rw [h, mul_one]
  have hle := add_le_add (htrunc ((x : F) * c + y * s)) (htrunc (-(x : F) * s + y * c))
  rw [hrotate] at hle
  exact_mod_cast hle

/-- What is driven of commands in range. -/
theorem driveCommand_le {trig : Trig F} {s : LoopState F} (h : s.InRange) {vx vy vr : ℤ}
    (hdrive : (vx, vy, vr) = driveCommand trig s) :
    |vr| ≤ 250 ∧
      ((∀ x, trig.sin x ^ 2 + trig.cos x ^ 2 = 1) → vx ^ 2 + vy ^ 2 ≤ 2 * 250 ^ 2) := by
  have hcommands : s.pilot.vxCmd ^ 2 + s.pilot.vyCmd ^ 2 ≤ 2 * 250 ^ 2 := by
    have hx := sq_le_sq.mpr (h.pilot.vxCmd_le.trans (le_abs_self 250))
    have hy := sq_le_sq.mpr (h.pilot.vyCmd_le.trans (le_abs_self 250))
    omega
  unfold driveCommand at hdrive
  dsimp only at hdrive
  split_ifs at hdrive
  all_goals
    simp only [Prod.mk.injEq] at hdrive
    obtain ⟨rfl, rfl, rfl⟩ := hdrive
  · exact ⟨h.imu.vrFinal_le, fun htrig =>
      (truncated_rotation_le (htrig _) _ _).trans hcommands⟩
  · exact ⟨h.imu.vrFinal_le, fun _ => hcommands⟩
  · exact ⟨by decide, fun _ => by decide⟩

/-- Such a motion asks no wheel for more than three times the fastest speed limit. -/
theorem largest_rawMix_le {vx vy vr : ℤ} (h : vx ^ 2 + vy ^ 2 ≤ 2 * 250 ^ 2) (hvr : |vr| ≤ 250) :
    (rawMix vx vy vr).largest ≤ 750 := by
  have hsum : |vx| + |vy| ≤ 500 := by
    have hx := sq_abs vx
    have hy := sq_abs vy
    nlinarith [sq_nonneg (|vx| - |vy|), abs_nonneg vx, abs_nonneg vy]
  obtain ⟨i, hi⟩ := (rawMix vx vy vr).exists_abs_speed_eq_largest
  rw [← hi]
  have hx := abs_le.mp (le_refl |vx|)
  have hy := abs_le.mp (le_refl |vy|)
  have hr := abs_le.mp hvr
  rw [abs_le]
  cases i <;> simp only [rawMix, Wheels.speed] <;> omega

/-- Nothing leaves its range. From `setup()` on, if it ends, with whatever answers on the SPI bus,
in every run of `loop()` and after each iteration: the heading is within half a turn and the same
in both places, target and headless reference are within half a turn, the memory of the PID is
bounded, all commands are within 250, and `speed` has one of its values. The rotation driven is
within 250. If `sin` and `cos` are those of one angle, the translation driven is no longer than two
full commands at right angles, and no wheel is asked for more than 750. -/
theorem envelope_run {σ : Type} (bus : Spi σ) (sqrtf : F → F) (trig : Trig F)
    (inputs : List Input) {s s' : σ} {calls : List PinCall} {l : LoopState F}
    (hsetup : bus.setup sqrtf s = some (calls, l, s')) :
    ∃ rs, runLoop trig inputs l = .ok rs ∧ ∀ r ∈ rs, r.1.InRange ∧ |r.2.vr| ≤ 250 ∧
      ((∀ x, trig.sin x ^ 2 + trig.cos x ^ 2 = 1) →
        r.2.vx ^ 2 + r.2.vy ^ 2 ≤ 2 * 250 ^ 2 ∧
          (rawMix r.2.vx r.2.vy r.2.vr).largest ≤ 750) := by
  obtain ⟨-, gzOffset, gDeadzone, rfl, hoffset⟩ := setup_eq hsetup
  have hok := LoopState.ok_init gzOffset gDeadzone
  obtain ⟨rs, hrs, -⟩ := exists_runLoop trig inputs hok
  refine ⟨rs, hrs, fun r hr => ?_⟩
  have hrun := (runLoop_forall (P := LoopState.InRange)
    (Q := fun r => (r.2.vx, r.2.vy, r.2.vr) = driveCommand trig r.1)
    (fun i s r _ hs hiter => ⟨inRange_step hiter hs, hiter.drive_eq⟩) hok
    (inRange_init hoffset gDeadzone) hrs).2 r hr
  obtain ⟨hvr, hvec⟩ := driveCommand_le hrun.1 hrun.2
  exact ⟨hrun.1, hvr, fun htrig => ⟨hvec htrig, largest_rawMix_le (hvec htrig) hvr⟩⟩

/-- The sensor on the bench lets the setup end. -/
theorem envelope_run_bench :
    ∃ calls l s', benchBus.setup id .start = some (calls, (l : LoopState ℚ), s') ∧
      ∃ rs, runLoop .constant [noiseInput] l = .ok rs ∧ ∀ r ∈ rs, |r.2.vr| ≤ 250 ∧
        (rawMix r.2.vx r.2.vy r.2.vr).largest ≤ 750 := by
  obtain ⟨imu, s', himu⟩ := imuInit_benchBus
  have hsetup : benchBus.setup id .start =
      some (motorInit, { LoopState.init 0 (2 / 10) with imu := imu }, s') := by
    rw [Spi.setup, himu]
    rfl
  have htrig : ∀ x, Trig.constant.sin x ^ 2 + Trig.constant.cos x ^ 2 = 1 := by
    intro x
    norm_num [Trig.constant]
  obtain ⟨rs, hrs, hrun⟩ := envelope_run benchBus id .constant [noiseInput] hsetup
  exact ⟨_, _, _, hsetup, rs, hrs, fun r hr => ⟨(hrun r hr).2.1, ((hrun r hr).2.2 htrig).2⟩⟩
