import OmniRobot.Crsf.Parser
import OmniRobot.Imu.Update
import OmniRobot.Motor.Kinematics
import OmniRobot.Motor.Rc

/-!
# The control loop

`main.ino`: one call of `loop()` as a step from one state of the program's variables to the next.
The state holds every global and every function-static variable of the loop. An `Input` is what
one iteration gets from outside: the PS3 buttons, the bytes one read of `Serial2` returns, the
timer interrupts since the last claim of ticks, the bursts of the IMU and the clocks.

The stages are functions of their own, under the names of what they do, in the order of the
source: `notify` and the servo writes in `prepare`, `receive` with `Pilot.update`, then
`switchYawHold`, `imuUpdate`, `Monitor.update` and `lockHeadless` in `steer`, and at last
`driveCommand`. Like the parser, a step is `Checked`.
-/

/-! ### Constants -/

/-- `Servo_open`. -/
def servoOpen : ℤ := 800

/-- `Servo_close`. -/
def servoClose : ℤ := 1900

/-- `RC_INPUT_MAX_CHANNELS`. -/
def rcInputMaxChannels : UInt16 := 18

/-- `HEADLESS_SWITCH_CH`. -/
def headlessSwitchCh : ℕ := 8

/-- `SBUS_BUFFER_SIZE`. -/
abbrev sbusBufferSize : ℕ := 25

/-! ### Inputs and state -/

/-- The buttons of the PS3 controller that the loop looks at. -/
structure Buttons where
  up : Bool
  down : Bool
  triangle : Bool
  cross : Bool
  circle : Bool
  l1 : Bool
  l2 : Bool
  r1 : Bool
  r2 : Bool

/-- No button pressed. -/
def Buttons.released : Buttons := ⟨false, false, false, false, false, false, false, false, false⟩

/-- What one iteration gets from outside. -/
structure Input where
  buttons : Buttons
  /-- `micros()` at the servo writes. -/
  nowUsServo : UInt32
  /-- The bytes read from `Serial2`, none if none were available. -/
  serial : { l : List UInt8 // l.length ≤ sbusBufferSize }
  /-- The timer interrupts since the last claim of ticks. -/
  ticks : ℕ
  /-- The bursts that `imu_update` reads. -/
  samples : ℕ → Burst
  /-- `micros()` and `millis()` at the monitor. -/
  nowUs : UInt32
  nowMs : UInt32

/-- An iteration with all buttons released and the clocks at 0. -/
def Input.untimed (serial : { l : List UInt8 // l.length ≤ sbusBufferSize }) (ticks : ℕ)
    (samples : ℕ → Burst) : Input :=
  ⟨.released, 0, serial, ticks, samples, 0, 0⟩

/-- The values of `mode`. -/
inductive Mode where
  | tuPilot
  | phucPilot
  | none
  deriving DecidableEq, Repr

/-- The five servo positions, and the button levels their toggles have seen. -/
structure Servos where
  midPos : ℤ
  leftMidPos : ℤ
  rightMidPos : ℤ
  upPos : ℤ
  downPos : ℤ
  midPrev : Bool
  leftMidPrev : Bool
  rightMidPrev : Bool
  upPrev : Bool
  downPrev : Bool
  lastUpdateUs : UInt32
  /-- The pulse last written to each PCA9685 channel. -/
  pulses : ℕ → Option ℤ

/-- The statics of the IMU monitor. -/
structure Monitor where
  lastMs : UInt32
  lastUs : UInt32
  deltaSumUs : UInt64
  tickSum : UInt32
  deriving DecidableEq

/-- What the RC stage decides: the pilot mode and the commands. -/
structure Pilot where
  speed : ℤ
  mode : Mode
  headlessMode : Bool
  vxCmd : ℤ
  vyCmd : ℤ
  vrCmd : ℤ

/-- The variables of the program. -/
structure LoopState (F : Type) where
  parser : Crsf.Parser
  rc : Crsf.RcOutput
  pilot : Pilot
  headlessPrev : Bool
  headlessYawRef : F
  servos : Servos
  imu : Imu F
  monitor : Monitor
  duties : Duties

/-- What is observed of one iteration: the arguments of its `drive_omni` call, and the frames
decoded. -/
structure Observation where
  vx : ℤ
  vy : ℤ
  vr : ℤ
  decodes : List Crsf.Decode

/-- `sin` and `cos`. -/
structure Trig (F : Type) where
  sin : F → F
  cos : F → F

/-- Constants, for runs that rotate no stick command other than 0. -/
def Trig.constant : Trig ℚ := ⟨fun _ => 0, fun _ => 1⟩

/-! ### Servos -/

/-- `update_servo_toggle`: the new position, and the level for the next call. -/
def updateServoToggle (buttonNow buttonPrev : Bool) (currentPos openPos closePos : ℤ) : ℤ × Bool :=
  (if buttonNow && !buttonPrev then
      if currentPos = openPos then closePos else openPos
    else currentPos, buttonNow)

/-- The servo part of `Notify`. -/
def Servos.notify (b : Buttons) (s : Servos) : Servos :=
  let leftMid := updateServoToggle b.r1 s.leftMidPrev s.leftMidPos servoOpen (servoClose + 300)
  let rightMid := updateServoToggle b.l1 s.rightMidPrev s.rightMidPos servoOpen servoClose
  let up := updateServoToggle b.r2 s.upPrev s.upPos servoOpen (servoClose + 100)
  let down := updateServoToggle b.l2 s.downPrev s.downPos (servoOpen - 200) servoClose
  { s with
    leftMidPos := leftMid.1, leftMidPrev := leftMid.2
    rightMidPos := rightMid.1, rightMidPrev := rightMid.2
    upPos := up.1, upPrev := up.2
    downPos := down.1, downPrev := down.2 }

/-- The motor part of `Notify`. -/
def notifyMotor (b : Buttons) (d : Duties) : Duties :=
  if b.up || b.triangle then setMotorSpeed d 3 (-200) slowDecayMode
  else if b.down || b.cross then setMotorSpeed d 3 200 slowDecayMode
  else setMotorSpeed d 3 0 slowDecayMode

/-- The servo writes, at most every 5000 µs. -/
def Servos.write (nowUs : UInt32) (s : Servos) : Servos :=
  if 5000 ≤ nowUs - s.lastUpdateUs then
    { s with
      lastUpdateUs := nowUs
      pulses := fun channel =>
        match channel with
        | 15 => some s.midPos
        | 14 => some s.leftMidPos
        | 13 => some s.rightMidPos
        | 12 => some s.upPos
        | 11 => some s.downPos
        | _ => s.pulses channel }
  else s

/-- The toggle of the middle servo by channel 9. -/
def Servos.toggleMid (values : ℕ → UInt16) (s : Servos) : Servos :=
  let mid := updateServoToggle (1500 < values 9) s.midPrev s.midPos (servoOpen - 100)
    (servoClose + 320)
  { s with midPos := mid.1, midPrev := mid.2 }

/-! ### Pilot -/

/-- The speed limit: two switches, and the boost button. -/
def speedLimit (values : ℕ → UInt16) (circle : Bool) (speed : ℤ) : ℤ :=
  let speed :=
    if values 10 < 1100 ∧ values 11 < 1100 then 150 - 36
    else if values 10 < 1600 ∨ values 11 < 1600 then 200 - 36
    else if 1800 < values 10 ∨ 1800 < values 11 then 250
    else speed
  if circle then 250 else speed

/-- The mode, by the switch on channel 5. -/
def selectMode (values : ℕ → UInt16) : Mode :=
  if values 5 < 1200 then .phucPilot else if values 5 < 1600 then .tuPilot else .none

/-- The RC stage after the parse. Without a pilot mode the commands stay as they were. -/
def Pilot.update (values : ℕ → UInt16) (circle : Bool) (p : Pilot) : Pilot :=
  let speed := speedLimit values circle p.speed
  let p := { p with
    speed := speed
    mode := selectMode values
    headlessMode := values (headlessSwitchCh - 1) < 1200 }
  match p.mode with
  | .tuPilot =>
      { p with
        vxCmd := mapRC (values 1) speed
        vyCmd := mapRC (values 0) speed
        vrCmd := mapRC (values 3) speed }
  | .phucPilot =>
      { p with
        vxCmd := mapRC (values 2) speed
        vyCmd := mapRC (values 3) speed
        vrCmd := mapRC (values 0) 120 }
  | .none => p

/-! ### The loop -/

section

variable {F : Type} [Field F] [LinearOrder F] [IsStrictOrderedRing F] [FloorRing F]

/-- The program's variables when `loop()` is first called. -/
def LoopState.init (gzOffset gDeadzone : F) : LoopState F where
  parser := .init
  rc := .init
  pilot := ⟨0, .none, false, 0, 0, 0⟩
  headlessPrev := false
  headlessYawRef := 0
  servos := ⟨0, 0, 0, 0, 0, false, false, false, false, false, 0, fun _ => none⟩
  imu := .init gzOffset gDeadzone
  monitor := ⟨0, 0, 0, 0⟩
  duties := .init

/-- `Notify`. -/
def notify (b : Buttons) (s : LoopState F) : LoopState F :=
  { s with duties := notifyMotor b s.duties, servos := s.servos.notify b }

/-- The read of `Serial2` and all that depends on it. -/
def receive (i : Input) (s : LoopState F) : Crsf.Checked (LoopState F × List Crsf.Decode) :=
  if i.serial.val = [] then return (s, [])
  else do
    let r ← Crsf.crsfParse rcInputMaxChannels i.serial.val s.parser s.rc
    return ({ s with
      parser := r.parser
      rc := r.out
      servos := s.servos.toggleMid r.out.values
      pilot := s.pilot.update r.out.values i.buttons.circle }, r.decodes)

/-- The yaw hold switch: off, with the target on the present yaw, while the pilot turns. -/
def switchYawHold (vrCmd : ℤ) (s : Imu F) : Imu F :=
  if 20 < |vrCmd| then { s with yawHoldEnabled := false, yawTarget := s.yawAngle, pidIntegral := 0 }
  else { s with yawHoldEnabled := true }

/-- The bookkeeping of the IMU monitor. What it prints is left out. -/
def Monitor.update (ticks : ℕ) (nowUs nowMs : UInt32) (m : Monitor) : Monitor :=
  let m :=
    if 0 < ticks then
      let m :=
        if m.lastUs ≠ 0 then
          { m with
            deltaSumUs := m.deltaSumUs + (nowUs - m.lastUs).toUInt64
            tickSum := m.tickSum + UInt32.ofNat ticks }
        else m
      { m with lastUs := nowUs }
    else m
  if 1000 ≤ nowMs - m.lastMs then { m with lastMs := nowMs, deltaSumUs := 0, tickSum := 0 } else m

/-- The lock of the headless reference, at the moment headless is enabled. -/
def lockHeadless (s : LoopState F) : LoopState F :=
  let s :=
    if s.pilot.headlessMode && !s.headlessPrev then { s with headlessYawRef := s.imu.yawAngle }
    else s
  { s with headlessPrev := s.pilot.headlessMode }

/-- The arguments of `drive_omni`. -/
def driveCommand (trig : Trig F) (s : LoopState F) : ℤ × ℤ × ℤ :=
  let p := s.pilot
  if p.mode ≠ .none then
    if p.headlessMode then
      -- rotate the stick by -(current_yaw - headless_yaw_ref)
      let yawDelta := wrapAngle (s.imu.yawAngle - s.headlessYawRef)
      let radians := -yawDelta * (314159 / 100000) / 180
      (truncZ (p.vxCmd * trig.cos radians + p.vyCmd * trig.sin radians),
        truncZ (-p.vxCmd * trig.sin radians + p.vyCmd * trig.cos radians),
        s.imu.vrFinal)
    else (p.vxCmd, p.vyCmd, s.imu.vrFinal)
  else (0, 0, 0)

/-- The loop up to the RC stage. -/
def prepare (i : Input) (s : LoopState F) : LoopState F :=
  let s := notify i.buttons s
  { s with servos := s.servos.write i.nowUsServo }

/-- The loop between the RC stage and the drive. -/
def steer (i : Input) (s : LoopState F) : LoopState F :=
  let imu := onImuTimer^[i.ticks] (switchYawHold s.pilot.vrCmd s.imu)
  let (imuTicks, imu) := imuUpdate s.pilot.vrCmd i.samples imu
  lockHeadless { s with imu := imu, monitor := s.monitor.update imuTicks i.nowUs i.nowMs }

/-- `loop()`. -/
def loop (trig : Trig F) (i : Input) (s : LoopState F) :
    Crsf.Checked (LoopState F × Observation) := do
  let (s, decodes) ← receive i (prepare i s)
  let s := steer i s
  let (vx, vy, vr) := driveCommand trig s
  return ({ s with duties := driveOmni s.duties vx vy vr }, ⟨vx, vy, vr, decodes⟩)

end
