import OmniRobot.Motor.Kinematics

/-!
# Motor pins

`motor_init` makes the two pins of each motor outputs, sets up an LEDC channel for each of them and
attaches the pins to the channels. The model records these calls, in their order. The frequency is
not one of the channel but of the timer that the channel uses, and channels share timers in pairs,
so a setup can undo another one. Which timer a channel uses is a parameter here.

## Main results

* `wired_motorInit`: what `motor_init` says of each motor, and that it says it once;
* `attached_motorInit`: it attaches no other pin;
* `frequency_motorInit`: no other setup reaches the timers of a motor.
-/

/-! ### Constants -/

/-- `MOTOR_FREQUENCY`, 20 kHz. -/
def motorFrequency : ℕ := 20000

/-- `MOTOR_LOW_FREQUENCY`. -/
def motorLowFrequency : ℕ := 1000

/-- `MOTOR0_DIR_PIN`, and so on. -/
def motor0DirPin : ℕ := 25
def motor0PwmPin : ℕ := 26
def motor1DirPin : ℕ := 32
def motor1PwmPin : ℕ := 33
def motor2DirPin : ℕ := 15
def motor2PwmPin : ℕ := 4
def motor3DirPin : ℕ := 5
def motor3PwmPin : ℕ := 2
def motor4DirPin : ℕ := 12
def motor4PwmPin : ℕ := 27
def motor5DirPin : ℕ := 13
def motor5PwmPin : ℕ := 14

/-! ### The code -/

/-- A call that configures a pin or a channel. -/
inductive PinCall where
  /-- `pinMode`, for an output. -/
  | pinMode (pin : ℕ)
  | ledcSetup (channel frequency bits : ℕ)
  | ledcAttachPin (pin channel : ℕ)
  deriving DecidableEq

/-- One of the six blocks of `motor_init`. -/
def initMotor (dirPin pwmPin dirChannel pwmChannel frequency : ℕ) : List PinCall :=
  [.pinMode dirPin, .pinMode pwmPin,
    .ledcSetup pwmChannel frequency 8, .ledcSetup dirChannel frequency 8,
    .ledcAttachPin pwmPin pwmChannel, .ledcAttachPin dirPin dirChannel]

/-- `motor_init`. -/
def motorInit : List PinCall :=
  [initMotor motor0DirPin motor0PwmPin motor0DirChannel motor0PwmChannel motorFrequency,
    initMotor motor1DirPin motor1PwmPin motor1DirChannel motor1PwmChannel motorFrequency,
    initMotor motor2DirPin motor2PwmPin motor2DirChannel motor2PwmChannel motorLowFrequency,
    initMotor motor3DirPin motor3PwmPin motor3DirChannel motor3PwmChannel motorLowFrequency,
    initMotor motor4DirPin motor4PwmPin motor4DirChannel motor4PwmChannel motorFrequency,
    initMotor motor5DirPin motor5PwmPin motor5DirChannel motor5PwmChannel motorFrequency].flatten

/-! ### The motors -/

/-- The direction pin of a motor. -/
def dirPin : Fin 6 → ℕ :=
  ![motor0DirPin, motor1DirPin, motor2DirPin, motor3DirPin, motor4DirPin, motor5DirPin]

/-- The PWM pin of a motor. -/
def pwmPin : Fin 6 → ℕ :=
  ![motor0PwmPin, motor1PwmPin, motor2PwmPin, motor3PwmPin, motor4PwmPin, motor5PwmPin]

/-- The frequency of a motor. -/
def frequencyOf : Fin 6 → ℕ :=
  ![motorFrequency, motorFrequency, motorLowFrequency, motorLowFrequency, motorFrequency,
    motorFrequency]

/-- The channels of different motors belong to different pairs. -/
theorem half_dirChannel_inj : ∀ i j, dirChannel i / 2 = dirChannel j / 2 → i = j := by decide

theorem half_pwmChannel : ∀ i, pwmChannel i / 2 = dirChannel i / 2 := by decide

theorem channels_lt : ∀ i, dirChannel i < 16 ∧ pwmChannel i < 16 := by decide

/-- The block of a motor. -/
def initMotorOf (i : Fin 6) : List PinCall :=
  initMotor (dirPin i) (pwmPin i) (dirChannel i) (pwmChannel i) (frequencyOf i)

/-- `motor_init` runs the blocks in the order of the motors. -/
theorem motorInit_eq : motorInit = (List.finRange 6).flatMap initMotorOf := rfl

theorem mem_motorInit {c : PinCall} : c ∈ motorInit ↔ ∃ i, c ∈ initMotorOf i := by
  rw [motorInit_eq, List.mem_flatMap]
  exact exists_congr fun i => and_iff_right (List.mem_finRange i)

/-! ### What is said of a motor -/

/-- The call names a pin. -/
def PinCall.namesPin (pin : ℕ) : PinCall → Bool
  | .pinMode pin' => pin' == pin
  | .ledcSetup _ _ _ => false
  | .ledcAttachPin pin' _ => pin' == pin

/-- The call sets up a channel. -/
def PinCall.setsUp (channel : ℕ) : PinCall → Bool
  | .ledcSetup channel' _ _ => channel' == channel
  | _ => false

/-- All that is said of the pins and the channels of a motor: each pin becomes an output and is then
attached to its channel, and each channel is set up once, at the frequency of the motor. -/
structure Wired (calls : List PinCall) (i : Fin 6) : Prop where
  dirPin_eq : calls.filter (PinCall.namesPin (dirPin i)) =
    [.pinMode (dirPin i), .ledcAttachPin (dirPin i) (dirChannel i)]
  pwmPin_eq : calls.filter (PinCall.namesPin (pwmPin i)) =
    [.pinMode (pwmPin i), .ledcAttachPin (pwmPin i) (pwmChannel i)]
  dirChannel_eq : calls.filter (PinCall.setsUp (dirChannel i)) =
    [.ledcSetup (dirChannel i) (frequencyOf i) 8]
  pwmChannel_eq : calls.filter (PinCall.setsUp (pwmChannel i)) =
    [.ledcSetup (pwmChannel i) (frequencyOf i) 8]

theorem wired_motorInit (i : Fin 6) : Wired motorInit i := by
  fin_cases i <;> constructor <;> decide

/-- `motor_init` attaches the pins of the motors and no others. -/
theorem attached_motorInit {pin channel : ℕ} (h : .ledcAttachPin pin channel ∈ motorInit) :
    ∃ i, pin = dirPin i ∧ channel = dirChannel i ∨ pin = pwmPin i ∧ channel = pwmChannel i := by
  obtain ⟨i, hi⟩ := mem_motorInit.mp h
  simp only [initMotorOf, initMotor, List.mem_cons, PinCall.ledcAttachPin.injEq, reduceCtorEq,
    List.not_mem_nil, false_or, or_false] at hi
  exact ⟨i, hi.symm⟩

/-- Different timers serve different pairs of the sixteen channels. -/
def TimersOfPairs (timer : ℕ → ℕ) : Prop :=
  ∀ c c', c < 16 → c' < 16 → timer c = timer c' → c / 2 = c' / 2

/-- Every setup that reaches a timer of a motor is at the frequency of the motor. -/
theorem frequency_motorInit {timer : ℕ → ℕ} (htimer : TimersOfPairs timer) {i : Fin 6}
    {channel frequency bits : ℕ} (h : .ledcSetup channel frequency bits ∈ motorInit)
    (hshared : timer channel = timer (dirChannel i) ∨ timer channel = timer (pwmChannel i)) :
    frequency = frequencyOf i ∧ bits = 8 := by
  obtain ⟨j, hj⟩ := mem_motorInit.mp h
  simp only [initMotorOf, initMotor, List.mem_cons, PinCall.ledcSetup.injEq, reduceCtorEq,
    List.not_mem_nil, false_or, or_false] at hj
  obtain ⟨hdir, hpwm⟩ := channels_lt i
  obtain ⟨hdir', hpwm'⟩ := channels_lt j
  have hhalf : channel / 2 = dirChannel i / 2 := by
    have hlt : channel < 16 := by
      rcases hj with ⟨rfl, -⟩ | ⟨rfl, -⟩
      exacts [hpwm', hdir']
    rcases hshared with h | h
    · exact htimer _ _ hlt hdir h
    · exact (htimer _ _ hlt hpwm h).trans (half_pwmChannel i)
  -- so the setup is one of the motor itself
  have hij : j = i := by
    apply half_dirChannel_inj
    rcases hj with ⟨rfl, -⟩ | ⟨rfl, -⟩
    exacts [(half_pwmChannel j).symm.trans hhalf, hhalf]
  subst hij
  rcases hj with ⟨-, rfl, rfl⟩ | ⟨-, rfl, rfl⟩ <;> exact ⟨rfl, rfl⟩
