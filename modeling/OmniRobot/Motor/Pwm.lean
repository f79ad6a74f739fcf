import Mathlib.Algebra.Order.Group.Unbundled.Int
import Mathlib.Data.Fin.VecNotation
import Mathlib.Data.Fintype.Basic
import Mathlib.Tactic.FinCases
import Mathlib.Tactic.SplitIfs

/-!
# Motor PWM

`setMotorSpeed` writes two LEDC duties for each motor, on its direction and its PWM channel. The
driver sees their difference. In fast decay one of the two is 0, in slow decay one of them is 255.

## Main results

* `wave_spec`: the duties of one call;
* `setMotorSpeed_comm`: calls for different motors commute;
* `setMotorSpeed_calls`: the duties after any sequence of calls.
-/

/-! ### Constants -/

/-- `MAX_SPEED`. -/
def maxSpeed : ℤ := 255

/-- `MIN_SPEED`. -/
def minSpeed : ℤ := -255

/-- `SLOW_DECAY_MODE`. -/
def slowDecayMode : ℤ := 1

/-- `FAST_DECAY_MODE`. -/
def fastDecayMode : ℤ := 2

/-- `MOTOR0_DIR_CHANNEL`, and so on. -/
def motor0DirChannel : ℕ := 0
def motor0PwmChannel : ℕ := 1
def motor1DirChannel : ℕ := 2
def motor1PwmChannel : ℕ := 3
def motor2DirChannel : ℕ := 8
def motor2PwmChannel : ℕ := 9
def motor3DirChannel : ℕ := 10
def motor3PwmChannel : ℕ := 11
def motor4DirChannel : ℕ := 4
def motor4PwmChannel : ℕ := 5
def motor5DirChannel : ℕ := 6
def motor5PwmChannel : ℕ := 7

/-! ### The code -/

/-- The duty of every LEDC channel. -/
abbrev Duties := ℕ → UInt32

/-- The duties before any write. -/
def Duties.init : Duties := fun _ => 0

/-- `ledcWrite`: the duty is converted to an unsigned 32-bit number. -/
def ledcWrite (d : Duties) (channel : ℕ) (duty : ℤ) : Duties :=
  Function.update d channel (UInt32.ofInt duty)

/-- One `switch (motorIndex)` of `setMotorSpeed`: the writes of `dir` and `pwm` to the channels of
the motor. All six of them have these cases. -/
def writeMotor (motorIndex dir pwm : ℤ) (d : Duties) : Duties :=
  match motorIndex with
  | 0 => ledcWrite (ledcWrite d motor0DirChannel dir) motor0PwmChannel pwm
  | 1 => ledcWrite (ledcWrite d motor1DirChannel dir) motor1PwmChannel pwm
  | 2 => ledcWrite (ledcWrite d motor2DirChannel dir) motor2PwmChannel pwm
  | 3 => ledcWrite (ledcWrite d motor3DirChannel dir) motor3PwmChannel pwm
  | 4 => ledcWrite (ledcWrite d motor4DirChannel dir) motor4PwmChannel pwm
  | 5 => ledcWrite (ledcWrite d motor5DirChannel dir) motor5PwmChannel pwm
  | _ => d

/-- The clamp at the start of `setMotorSpeed`. -/
def clampSpeed (speed : ℤ) : ℤ :=
  if maxSpeed < speed then maxSpeed else if speed < minSpeed then minSpeed else speed

/-- `setMotorSpeed`. -/
def setMotorSpeed (d : Duties) (motorIndex speed decayMode : ℤ) : Duties :=
  let speed := clampSpeed speed
  if decayMode = fastDecayMode then
    if speed < 0 then writeMotor motorIndex 0 (-speed) d
    else if 0 < speed then writeMotor motorIndex speed 0 d
    else writeMotor motorIndex 0 0 d
  else if decayMode = slowDecayMode then
    if speed < 0 then writeMotor motorIndex (255 + speed) 255 d
    else if 0 < speed then writeMotor motorIndex 255 (255 - speed) d
    else writeMotor motorIndex 0 0 d
  else d

/-! ### Channels -/

/-- The direction channel of a motor. -/
def dirChannel : Fin 6 → ℕ :=
  ![motor0DirChannel, motor1DirChannel, motor2DirChannel, motor3DirChannel, motor4DirChannel,
    motor5DirChannel]

/-- The PWM channel of a motor. -/
def pwmChannel : Fin 6 → ℕ :=
  ![motor0PwmChannel, motor1PwmChannel, motor2PwmChannel, motor3PwmChannel, motor4PwmChannel,
    motor5PwmChannel]

theorem dirChannel_inj : ∀ i j, dirChannel i = dirChannel j ↔ i = j := by decide

theorem pwmChannel_inj : ∀ i j, pwmChannel i = pwmChannel j ↔ i = j := by decide

theorem dirChannel_ne_pwmChannel : ∀ i j, dirChannel i ≠ pwmChannel j := by decide

/-- The index names a motor. -/
def IsMotor (motorIndex : ℤ) : Prop := ∃ i : Fin 6, motorIndex = (i : ℤ)

theorem writeMotor_fin (i : Fin 6) (dir pwm : ℤ) (d : Duties) :
    writeMotor (i : ℤ) dir pwm d =
      ledcWrite (ledcWrite d (dirChannel i) dir) (pwmChannel i) pwm := by
  fin_cases i <;> rfl

theorem writeMotor_of_not_isMotor {motorIndex : ℤ} (h : ¬ IsMotor motorIndex) (dir pwm : ℤ)
    (d : Duties) : writeMotor motorIndex dir pwm d = d := by
  unfold writeMotor
  split
  case h_7 => rfl
  all_goals exact absurd ⟨⟨_, by decide⟩, rfl⟩ h

/-- Writes to different motors commute. -/
theorem writeMotor_comm {i j : ℤ} (h : i ≠ j) (x y x' y' : ℤ) (d : Duties) :
    writeMotor i x y (writeMotor j x' y' d) = writeMotor j x' y' (writeMotor i x y d) := by
  by_cases hi : IsMotor i
  · by_cases hj : IsMotor j
    · obtain ⟨i, rfl⟩ := hi
      obtain ⟨j, rfl⟩ := hj
      -- the four channels of two motors differ
      have hij : i ≠ j := fun heq => h (by rw [heq])
      have h₁ : dirChannel i ≠ dirChannel j := fun heq => hij ((dirChannel_inj i j).mp heq)
      have h₂ : pwmChannel i ≠ pwmChannel j := fun heq => hij ((pwmChannel_inj i j).mp heq)
      have h₃ := dirChannel_ne_pwmChannel i j
      have h₄ := dirChannel_ne_pwmChannel j i
      ext channel
      simp only [writeMotor_fin, ledcWrite, Function.update_apply]
      split_ifs <;> simp_all
    · rw [writeMotor_of_not_isMotor hj, writeMotor_of_not_isMotor hj]
  · rw [writeMotor_of_not_isMotor hi, writeMotor_of_not_isMotor hi]

/-! ### One call -/

/-- The duties that a call writes to the two channels of its motor, if it knows the mode. -/
def wave (speed decayMode : ℤ) : Option (ℤ × ℤ) :=
  let speed := clampSpeed speed
  if decayMode = fastDecayMode then
    some (if speed < 0 then (0, -speed) else if 0 < speed then (speed, 0) else (0, 0))
  else if decayMode = slowDecayMode then
    some (if speed < 0 then (255 + speed, 255) else if 0 < speed then (255, 255 - speed)
      else (0, 0))
  else none

theorem setMotorSpeed_eq (d : Duties) (motorIndex speed decayMode : ℤ) :
    setMotorSpeed d motorIndex speed decayMode =
      match wave speed decayMode with
      | some (dir, pwm) => writeMotor motorIndex dir pwm d
      | none => d := by
  unfold setMotorSpeed wave
  dsimp only
  split_ifs <;> rfl

theorem clampSpeed_bounds (speed : ℤ) : -255 ≤ clampSpeed speed ∧ clampSpeed speed ≤ 255 := by
  rw [clampSpeed, maxSpeed, minSpeed]
  split_ifs <;> omega

theorem clampSpeed_eq_zero_iff (speed : ℤ) : clampSpeed speed = 0 ↔ speed = 0 := by
  constructor
  · intro h
    rw [clampSpeed, maxSpeed, minSpeed] at h
    split_ifs at h
    · cases h
    · exact h
  · rintro rfl
    rfl

theorem wave_isSome_iff (speed decayMode : ℤ) :
    (wave speed decayMode).isSome ↔ decayMode = fastDecayMode ∨ decayMode = slowDecayMode := by
  unfold wave
  split_ifs <;> simp_all

/-- The duties of one call: in range, their difference is the clamped speed, and the mode says
which of them is at its bound. -/
theorem wave_spec {speed decayMode dir pwm : ℤ} (h : wave speed decayMode = some (dir, pwm)) :
    (0 ≤ dir ∧ dir ≤ 255) ∧ (0 ≤ pwm ∧ pwm ≤ 255) ∧ dir - pwm = clampSpeed speed ∧
      (speed ≠ 0 → decayMode = fastDecayMode → min dir pwm = 0) ∧
      (speed ≠ 0 → decayMode = slowDecayMode → max dir pwm = 255) ∧
      (speed = 0 → dir = 0 ∧ pwm = 0) := by
  have hbounds := clampSpeed_bounds speed
  have hzero := clampSpeed_eq_zero_iff speed
  have hmodes : fastDecayMode ≠ slowDecayMode := by decide
  unfold wave at h
  dsimp only at h
  -- two modes, each with a negative, a positive and a zero speed
  split_ifs at h with hmode h₁ h₂ h₁ h₂
  all_goals
    simp only [Option.some.injEq, Prod.mk.injEq] at h
    obtain ⟨rfl, rfl⟩ := h
    refine ⟨by omega, by omega, by omega, fun _ _ => ?_, fun _ _ => ?_, fun _ => by omega⟩
    all_goals omega

/-- Calls for different motors commute. -/
theorem setMotorSpeed_comm {i j : ℤ} (h : i ≠ j) (speed decayMode speed' decayMode' : ℤ)
    (d : Duties) :
    setMotorSpeed (setMotorSpeed d i speed decayMode) j speed' decayMode' =
      setMotorSpeed (setMotorSpeed d j speed' decayMode') i speed decayMode := by
  simp only [setMotorSpeed_eq]
  cases wave speed decayMode with
  | none => rfl
  | some p =>
    cases wave speed' decayMode' with
    | none => rfl
    | some p' => exact writeMotor_comm h.symm _ _ _ _ d

/-! ### Sequences of calls -/

/-- The arguments of a call. -/
structure SpeedCall where
  motorIndex : ℤ
  speed : ℤ
  decayMode : ℤ

namespace SpeedCall

/-- The mode of the call is one of the two. -/
def Recognised (c : SpeedCall) : Prop :=
  c.decayMode = fastDecayMode ∨ c.decayMode = slowDecayMode

instance (c : SpeedCall) : Decidable c.Recognised := inferInstanceAs (Decidable (_ ∨ _))

/-- The call writes the duties of motor `i`. -/
def Drives (c : SpeedCall) (i : Fin 6) : Prop := c.motorIndex = (i : ℤ) ∧ c.Recognised

instance (c : SpeedCall) (i : Fin 6) : Decidable (c.Drives i) := inferInstanceAs (Decidable (_ ∧ _))

/-- Make the call. -/
def run (d : Duties) (c : SpeedCall) : Duties :=
  setMotorSpeed d c.motorIndex c.speed c.decayMode

end SpeedCall

/-- The duties after a sequence of calls. -/
def runCalls (calls : List SpeedCall) : Duties := calls.foldl SpeedCall.run Duties.init

/-- The last call that writes the duties of a motor. -/
def lastCall (calls : List SpeedCall) (i : Fin 6) : Option SpeedCall :=
  (calls.filter fun c => c.Drives i).getLast?

theorem lastCall_append (calls : List SpeedCall) (c : SpeedCall) (i : Fin 6) :
    lastCall (calls ++ [c]) i = if c.Drives i then some c else lastCall calls i := by
  unfold lastCall
  rw [List.filter_append]
  by_cases h : c.Drives i
  · simp [h]
  · simp [h]

/-- A duty in range is written as it is. -/
theorem ledcWrite_self {d : Duties} {channel : ℕ} {duty : ℤ} (h₀ : 0 ≤ duty) (h : duty ≤ 255) :
    ((ledcWrite d channel duty channel).toNat : ℤ) = duty := by
  rw [ledcWrite, Function.update_self, UInt32.ofInt, UInt32.toNat_ofNat']
  omega

theorem ledcWrite_of_ne {d : Duties} {channel channel' : ℕ} {duty : ℤ} (h : channel' ≠ channel) :
    ledcWrite d channel duty channel' = d channel' := Function.update_of_ne h _ _

/-- A call writes the two channels of its motor and no other. -/
theorem run_of_drives {c : SpeedCall} {i : Fin 6} (h : c.Drives i) (d : Duties) :
    ∃ dir pwm, wave c.speed c.decayMode = some (dir, pwm) ∧
      ((c.run d (dirChannel i)).toNat : ℤ) = dir ∧ ((c.run d (pwmChannel i)).toNat : ℤ) = pwm := by
  obtain ⟨⟨dir, pwm⟩, hwave⟩ :=
    Option.isSome_iff_exists.mp ((wave_isSome_iff c.speed c.decayMode).mpr h.2)
  obtain ⟨⟨hdir, hdir'⟩, ⟨hpwm, hpwm'⟩, -⟩ := wave_spec hwave
  refine ⟨dir, pwm, hwave, ?_, ?_⟩
  all_goals rw [SpeedCall.run, setMotorSpeed_eq, hwave, h.1]
  all_goals dsimp only
  all_goals rw [writeMotor_fin]
  · rw [ledcWrite_of_ne (dirChannel_ne_pwmChannel i i), ledcWrite_self hdir hdir']
  · rw [ledcWrite_self hpwm hpwm']

/-- A call that does not drive a motor leaves its channels alone. -/
theorem run_of_not_drives {c : SpeedCall} {i : Fin 6} (h : ¬ c.Drives i) (d : Duties) :
    c.run d (dirChannel i) = d (dirChannel i) ∧ c.run d (pwmChannel i) = d (pwmChannel i) := by
  rw [SpeedCall.run, setMotorSpeed_eq]
  cases hwave : wave c.speed c.decayMode with
  | none => exact ⟨rfl, rfl⟩
  | some p =>
    obtain ⟨dir, pwm⟩ := p
    have hrec : c.Recognised := (wave_isSome_iff c.speed c.decayMode).mp (by rw [hwave]; rfl)
    dsimp only
    -- the mode is known, so the call is for another motor, or for none
    by_cases hmotor : IsMotor c.motorIndex
    · obtain ⟨j, hj⟩ := hmotor
      have hij : i ≠ j := by
        rintro rfl
        exact h ⟨hj, hrec⟩
      rw [hj, writeMotor_fin]
      constructor
      · rw [ledcWrite_of_ne (dirChannel_ne_pwmChannel i j),
          ledcWrite_of_ne fun heq => hij ((dirChannel_inj i j).mp heq)]
      · rw [ledcWrite_of_ne fun heq => hij ((pwmChannel_inj i j).mp heq),
          ledcWrite_of_ne (dirChannel_ne_pwmChannel j i).symm]
    · rw [writeMotor_of_not_isMotor hmotor]
      exact ⟨rfl, rfl⟩

/-- What a sequence of calls leaves in the channels of a motor: nothing, or the duties of the last
call that drives it. -/
theorem runCalls_motor (calls : List SpeedCall) (i : Fin 6) :
    (lastCall calls i = none ∧ runCalls calls (dirChannel i) = 0 ∧
        runCalls calls (pwmChannel i) = 0) ∨
      ∃ c dir pwm, lastCall calls i = some c ∧ wave c.speed c.decayMode = some (dir, pwm) ∧
        ((runCalls calls (dirChannel i)).toNat : ℤ) = dir ∧
        ((runCalls calls (pwmChannel i)).toNat : ℤ) = pwm := by
  induction calls using List.reverseRecOn with
  | nil => exact .inl ⟨rfl, rfl, rfl⟩
  | append_singleton calls c ih =>
    rw [lastCall_append, runCalls, List.foldl_append, List.foldl_cons, List.foldl_nil]
    -- the last call decides if it drives the motor, and the calls before it otherwise
    by_cases h : c.Drives i
    · obtain ⟨dir, pwm, hwave, hdir, hpwm⟩ := run_of_drives h (runCalls calls)
      exact .inr ⟨c, dir, pwm, if_pos h, hwave, hdir, hpwm⟩
    · rw [if_neg h]
      have hsame := run_of_not_drives h (runCalls calls)
      rw [runCalls] at ih hsame
      rwa [hsame.1, hsame.2]

/-- A channel that belongs to no motor is never written. -/
theorem runCalls_of_not_motor (calls : List SpeedCall) {channel : ℕ}
    (h : ∀ i, channel ≠ dirChannel i ∧ channel ≠ pwmChannel i) : runCalls calls channel = 0 := by
  induction calls using List.reverseRecOn with
  | nil => rfl
  | append_singleton calls c ih =>
    rw [runCalls, List.foldl_append, List.foldl_cons, List.foldl_nil, SpeedCall.run,
      setMotorSpeed_eq]
    cases wave c.speed c.decayMode with
    | none => exact ih
    | some p =>
      by_cases hmotor : IsMotor c.motorIndex
      · obtain ⟨j, hj⟩ := hmotor
        dsimp only
        rw [hj, writeMotor_fin, ledcWrite_of_ne (h j).2, ledcWrite_of_ne (h j).1]
        exact ih
      · dsimp only
        rw [writeMotor_of_not_isMotor hmotor]
        exact ih

/-- Every duty stays in 0..255. -/
theorem runCalls_le (calls : List SpeedCall) (channel : ℕ) :
    (runCalls calls channel).toNat ≤ 255 := by
  by_cases h : ∃ i, channel = dirChannel i ∨ channel = pwmChannel i
  · obtain ⟨i, hi⟩ := h
    rcases runCalls_motor calls i with ⟨-, hdir, hpwm⟩ | ⟨c, dir, pwm, -, hwave, hdir, hpwm⟩
    · -- no call has driven this motor yet
      rcases hi with rfl | rfl
      · rw [hdir]; decide
      · rw [hpwm]; decide
    · obtain ⟨⟨-, hdir'⟩, ⟨-, hpwm'⟩, -⟩ := wave_spec hwave
      rcases hi with rfl | rfl
      · omega
      · omega
  · -- the channel is none of the twelve
    rw [runCalls_of_not_motor calls fun i =>
      ⟨fun heq => h ⟨i, .inl heq⟩, fun heq => h ⟨i, .inr heq⟩⟩]
    decide

/-- The difference of a motor's duties is the clamped speed of the last call that drives it. -/
theorem runCalls_sub (calls : List SpeedCall) (i : Fin 6) :
    ((runCalls calls (dirChannel i)).toNat : ℤ) - (runCalls calls (pwmChannel i)).toNat =
      (lastCall calls i).elim 0 fun c => clampSpeed c.speed := by
  rcases runCalls_motor calls i with ⟨hlast, hdir, hpwm⟩ | ⟨c, dir, pwm, hlast, hwave, hdir, hpwm⟩
  · rw [hlast, hdir, hpwm]
    rfl
  · rw [hlast, hdir, hpwm]
    exact (wave_spec hwave).2.2.1

/-- Which side of a motor's pair of duties sits at its limit depends on the mode of the last call
that drives it. -/
theorem runCalls_mode {calls : List SpeedCall} {i : Fin 6} {c : SpeedCall}
    (hc : lastCall calls i = some c) :
    (c.speed ≠ 0 → c.decayMode = fastDecayMode →
      min (runCalls calls (dirChannel i)).toNat (runCalls calls (pwmChannel i)).toNat = 0) ∧
    (c.speed ≠ 0 → c.decayMode = slowDecayMode →
      max (runCalls calls (dirChannel i)).toNat (runCalls calls (pwmChannel i)).toNat = 255) ∧
    (c.speed = 0 → (runCalls calls (dirChannel i)).toNat = 0 ∧
      (runCalls calls (pwmChannel i)).toNat = 0) := by
  rcases runCalls_motor calls i with ⟨hlast, -⟩ | ⟨c', dir, pwm, hlast, hwave, hdir, hpwm⟩
  · rw [hlast] at hc
    cases hc
  · obtain rfl : c' = c := Option.some.inj (hlast.symm.trans hc)
    obtain ⟨-, -, -, hfast, hslow, hstop⟩ := wave_spec hwave
    refine ⟨fun hne hmode => ?_, fun hne hmode => ?_, fun hzero => ?_⟩
    · have := hfast hne hmode
      omega
    · have := hslow hne hmode
      omega
    · have := hstop hzero
      omega

/-- A call with an index or a mode that `setMotorSpeed()` does not know changes nothing. -/
theorem run_of_unknown {c : SpeedCall} (h : ¬ IsMotor c.motorIndex ∨ ¬ c.Recognised)
    (d : Duties) : c.run d = d := by
  rw [SpeedCall.run, setMotorSpeed_eq]
  cases hwave : wave c.speed c.decayMode with
  | none => rfl
  | some p =>
    have hrec : c.Recognised := (wave_isSome_iff c.speed c.decayMode).mp (by rw [hwave]; rfl)
    exact writeMotor_of_not_isMotor (h.resolve_right (not_not.mpr hrec)) _ _ d

/-- PWM state over whole runs. After any sequence of calls from all duties 0:

* every duty is in 0..255;
* each motor's difference of duties is the clamped speed of the last call that drives it, 0 if
  there is none;
* for a nonzero speed the smaller duty is 0 in fast decay and the larger one 255 in slow decay, and
  for speed 0 both are 0;
* a call with another index or mode changes nothing, in any state;
* calls for different motors commute, in any state. -/
theorem setMotorSpeed_calls (calls : List SpeedCall) :
    (∀ channel, (runCalls calls channel).toNat ≤ 255) ∧
    (∀ i, ((runCalls calls (dirChannel i)).toNat : ℤ) - (runCalls calls (pwmChannel i)).toNat =
      (lastCall calls i).elim 0 fun c => clampSpeed c.speed) ∧
    (∀ i c, lastCall calls i = some c →
      (c.speed ≠ 0 → c.decayMode = fastDecayMode →
        min (runCalls calls (dirChannel i)).toNat (runCalls calls (pwmChannel i)).toNat = 0) ∧
      (c.speed ≠ 0 → c.decayMode = slowDecayMode →
        max (runCalls calls (dirChannel i)).toNat (runCalls calls (pwmChannel i)).toNat = 255) ∧
      (c.speed = 0 → (runCalls calls (dirChannel i)).toNat = 0 ∧
        (runCalls calls (pwmChannel i)).toNat = 0)) ∧
    (∀ (c : SpeedCall) (d : Duties), ¬ IsMotor c.motorIndex ∨ ¬ c.Recognised → c.run d = d) ∧
    (∀ (c c' : SpeedCall) (d : Duties), c.motorIndex ≠ c'.motorIndex →
      c'.run (c.run d) = c.run (c'.run d)) := by
  refine ⟨runCalls_le calls, runCalls_sub calls, fun i c hc => runCalls_mode hc, ?_, ?_⟩
  · intro c d h
    exact run_of_unknown h d
  · intro c c' d h
    exact setMotorSpeed_comm h _ _ _ _ d
