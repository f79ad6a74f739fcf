import OmniRobot.Numeric.Trunc
import OmniRobot.Numeric.Wrap

/-!
# The IMU and the yaw hold

`imu.cpp` from the timer interrupt to `vr_final`: one processed tick reads the sensor, integrates
the yaw rate and computes the rotation to drive, by the PID while yaw hold is on and from the
stick otherwise. `imuUpdate` claims at most ten pending ticks and processes them.

The numbers are those of any ordered field with floors; the source's `float` constants are read
as the decimal fractions they are written as.
-/

section

variable (F : Type*)

/-- `IMUSnapshot`. -/
@[ext]
structure IMUSnapshot where
  yaw : F
  gz : F
  ax : F
  ay : F
  az : F
  deriving DecidableEq

/-- The shared variables of `imu.cpp`, and `yaw_hold_enabled`. -/
@[ext]
structure Imu where
  yawAngle : F
  yawTarget : F
  pidIntegral : F
  pidPrevErr : F
  vrFinal : ℤ
  gImu : IMUSnapshot F
  gzOffset : F
  gDeadzone : F
  imuTickPending : UInt32
  yawHoldEnabled : Bool
  deriving DecidableEq

end

/-! ### Literals

Named, as in the wrapping of an angle: other modules write them too. -/

instance neZero_6 : NeZero 6 := ⟨by decide⟩

instance neZero_12 : NeZero 12 := ⟨by decide⟩

instance atLeastTwo_3 : Nat.AtLeastTwo 3 := ⟨by decide⟩

instance atLeastTwo_50 : Nat.AtLeastTwo 50 := ⟨by decide⟩

instance atLeastTwo_250 : Nat.AtLeastTwo 250 := ⟨by decide⟩

instance atLeastTwo_100000 : Nat.AtLeastTwo 100000 := ⟨by decide⟩

/-! ### A burst -/

/-- The 12 bytes of a burst read: three gyro axes and three accelerometer axes, low byte first. -/
abbrev Burst := Fin 12 → UInt8

/-- `(int16_t)(hi << 8 | lo)`. -/
def int16OfBytes (hi lo : UInt8) : ℤ := ((hi.toNat <<< 8 ||| lo.toNat : ℕ) : ℤ).bmod (2 ^ 16)

/-- The raw yaw rate of a burst. -/
def Burst.rawGz (buf : Burst) : ℤ := int16OfBytes (buf 5) (buf 4)

/-- A burst with the given raw yaw rate, and 0 on the other axes. -/
def Burst.ofGz (hi lo : UInt8) : Burst := fun j => if j = 4 then lo else if j = 5 then hi else 0

section

variable {F : Type*} [Field F] [LinearOrder F] [IsStrictOrderedRing F] [FloorRing F]

/-! ### Constants -/

/-- `ACCEL_SENSITIVITY`. -/
def accelSensitivity : F := 598 / 1000000

/-- `GYRO_SENSITIVITY`. -/
def gyroSensitivity : F := 875 / 100000

/-- `DT`, for `TIMER_HZ` 1000. -/
def dt : F := 1 / 1000

/-- `KP`. -/
def kp : F := 3

/-- `KI`. -/
def ki : F := 8 / 100

/-- `KD`. -/
def kd : F := 1 / 1000

/-! ### The code -/

/-- The IMU variables after `imu_init`: zero but for what the calibration has measured. -/
def Imu.init (gzOffset gDeadzone : F) : Imu F where
  yawAngle := 0
  yawTarget := 0
  pidIntegral := 0
  pidPrevErr := 0
  vrFinal := 0
  gImu := ⟨0, 0, 0, 0, 0⟩
  gzOffset := gzOffset
  gDeadzone := gDeadzone
  imuTickPending := 0
  yawHoldEnabled := false

/-- `onImuTimer`. -/
def onImuTimer (s : Imu F) : Imu F := { s with imuTickPending := s.imuTickPending + 1 }

/-- Arduino's `constrain`. -/
def constrain (x lo hi : F) : F := if x < lo then lo else if hi < x then hi else x

/-- `compute_yaw_pid(target, current)`. -/
def computeYawPid (target current : F) (s : Imu F) : ℤ × Imu F :=
  let err := wrapAngle (target - current)
  let integral := constrain (s.pidIntegral + err) (-50) 50
  let pidD := err - s.pidPrevErr
  let out := kp * err + ki * integral + kd * pidD
  (truncZ (constrain (-out) (-250) 250), { s with pidIntegral := integral, pidPrevErr := err })

/-- The corrected yaw rate of a burst. -/
def correctedRate (gzOffset : F) (buf : Burst) : F := buf.rawGz * gyroSensitivity - gzOffset

/-- One integration step of the yaw, outside the dead zone, with its one-turn corrections. -/
def integrateYaw (gDeadzone gzC yaw : F) : F :=
  if gDeadzone < |gzC| then
    let yaw := yaw + gzC * dt
    let yaw := if 180 < yaw then yaw - 360 else yaw
    if yaw < -180 then yaw + 360 else yaw
  else yaw

/-- One pass of the `while` loop of `imu_update`. -/
def imuTick (holdEnabled : Bool) (targetYaw : F) (vrCmd : ℤ) (s : Imu F) (buf : Burst) : Imu F :=
  let rawAx := int16OfBytes (buf 7) (buf 6)
  let rawAy := int16OfBytes (buf 9) (buf 8)
  let rawAz := int16OfBytes (buf 11) (buf 10)
  let gzC := correctedRate s.gzOffset buf
  let newYaw := integrateYaw s.gDeadzone gzC s.gImu.yaw
  let s := { s with
    gImu := ⟨newYaw, gzC, rawAx * accelSensitivity, rawAy * accelSensitivity,
      rawAz * accelSensitivity⟩
    yawAngle := newYaw }
  if holdEnabled then
    let r := computeYawPid targetYaw newYaw s
    { r.2 with vrFinal := r.1 }
  else { s with vrFinal := vrCmd }

/-- The claim of pending ticks at the start of `imu_update`: at most ten. -/
def claimTicks (s : Imu F) : ℕ × Imu F :=
  let ticks := min s.imuTickPending 10
  (ticks.toNat, { s with imuTickPending := s.imuTickPending - ticks })

/-- `imu_update`, when its bursts read `samples`: the number of ticks processed, and the state. -/
def imuUpdate (vrCmd : ℤ) (samples : ℕ → Burst) (s : Imu F) : ℕ × Imu F :=
  let claim := claimTicks s
  (claim.1, ((List.range claim.1).map samples).foldl
    (imuTick s.yawHoldEnabled s.yawTarget vrCmd) claim.2)

end
