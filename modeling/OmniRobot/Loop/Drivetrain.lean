import OmniRobot.Loop.Spec
import OmniRobot.Motor.Desaturation
import OmniRobot.Motor.Pins

/-!
# The drivetrain over whole runs

Each iteration calls `setMotorSpeed` five times: once in `Notify` for the lift and four times in
`drive_omni` for the wheels. What the duties hold after a run is what the calls of its last
iteration have left, so nothing of an earlier iteration remains.

## Main results

* `runCalls_run`: the duties of a run are those of all its calls;
* `duties_run`: the duties of each motor after an iteration;
* `pins_run`: the calls that reach the motor pins, from `motor_init` on.
-/

/-- The speed of the lift, by the buttons. -/
def liftSpeed (b : Buttons) : ℤ :=
  if b.up || b.triangle then -200 else if b.down || b.cross then 200 else 0

/-- The speed of each motor: four wheels, the lift, and motor 2, which nothing drives. -/
def motorSpeeds (b : Buttons) (o : Observation) : Fin 6 → ℤ :=
  let w := omniKinematics o.vx o.vy o.vr
  ![w.rl, w.rr, 0, liftSpeed b, w.fl, w.fr]

/-- The motors that an iteration sets, in its order. -/
def motorsSet : List (Fin 6) := [3, 0, 1, 4, 5]

/-- The call of `setMotorSpeed` for a motor. -/
def callFor (b : Buttons) (o : Observation) (m : Fin 6) : SpeedCall :=
  ⟨(m : ℤ), motorSpeeds b o m, slowDecayMode⟩

/-- The calls of one iteration. -/
def iterationCalls (b : Buttons) (o : Observation) : List SpeedCall := motorsSet.map (callFor b o)

/-- No speed needs the clamp of `setMotorSpeed`. -/
theorem abs_motorSpeeds_le (b : Buttons) (o : Observation) (m : Fin 6) :
    |motorSpeeds b o m| ≤ 255 := by
  have hwheel := abs_speed_omniKinematics_le o.vx o.vy o.vr
  have hlift : |liftSpeed b| ≤ 255 := by
    unfold liftSpeed
    split_ifs <;> decide
  have hrest : |(0 : ℤ)| ≤ 255 := by decide
  fin_cases m
  exacts [hwheel .rl, hwheel .rr, hrest, hlift, hwheel .fl, hwheel .fr]

theorem notifyMotor_eq (b : Buttons) (d : Duties) :
    notifyMotor b d = setMotorSpeed d 3 (liftSpeed b) slowDecayMode := by
  unfold notifyMotor liftSpeed
  split_ifs <;> rfl

/-- One iteration makes its calls. -/
theorem duties_step {F : Type} [Field F] [LinearOrder F] [IsStrictOrderedRing F] [FloorRing F]
    {trig : Trig F} {i : Input} {s : LoopState F} {r : LoopState F × Observation}
    (h : Iterates trig i s r) :
    r.1.duties = (iterationCalls i.buttons r.2).foldl SpeedCall.run s.duties := by
  rw [h.duties_eq, notifyMotor_eq]
  rfl

/-! ### Calls of a run -/

/-- The last call of an iteration for each motor that it sets. -/
theorem lastCall_iterationCalls (calls : List SpeedCall) (b : Buttons) (o : Observation)
    (m : Fin 6) :
    lastCall (calls ++ iterationCalls b o) m =
      if m ∈ motorsSet then some (callFor b o m) else lastCall calls m := by
  have hdrives : ∀ j, (callFor b o j).Drives m ↔ m = j := by
    intro j
    constructor
    · rintro ⟨h, -⟩
      have hjm : (j : ℤ) = (m : ℤ) := h
      exact Fin.ext (by omega)
    · rintro rfl
      exact ⟨rfl, .inr rfl⟩
  rw [iterationCalls]
  induction motorsSet using List.reverseRecOn with
  | nil => rw [List.map_nil, List.append_nil, if_neg List.not_mem_nil]
  | append_singleton ms j ih =>
    rw [List.map_append, List.map_singleton, ← List.append_assoc, lastCall_append, ih]
    simp only [hdrives, List.mem_append, List.mem_singleton]
    by_cases hmj : m = j
    · rw [if_pos hmj, if_pos (.inr hmj), hmj]
    · simp [hmj]

theorem eq_two_of_notMem : ∀ {m : Fin 6}, m ∉ motorsSet → m = 2 := by decide

/-- The calls of a list of iterations. -/
def callsOf (ios : List (Input × Observation)) : List SpeedCall :=
  ios.flatMap fun io => iterationCalls io.1.buttons io.2

/-- Motor 2 is never set. -/
theorem lastCall_callsOf_two (ios : List (Input × Observation)) :
    lastCall (callsOf ios) 2 = none := by
  induction ios using List.reverseRecOn with
  | nil => rfl
  | append_singleton ios io ih =>
    rw [callsOf, List.flatMap_append, List.flatMap_singleton, lastCall_iterationCalls,
      if_neg (by decide)]
    exact ih

section Run

variable {F : Type} [Field F] [LinearOrder F] [IsStrictOrderedRing F] [FloorRing F]
  {trig : Trig F} {gzOffset gDeadzone : F} {inputs : List Input}
  {rs : List (LoopState F × Observation)}

/-- The duties after a run are those of all its calls. -/
theorem runCalls_run (h : runLoop trig inputs (.init gzOffset gDeadzone) = .ok rs) :
    (Machine.final (.init gzOffset gDeadzone) rs).duties =
      runCalls (callsOf (inputs.zip (rs.map Prod.snd))) := by
  have hrefines := Machine.run_refines
    (R := fun (s : LoopState F) calls => s.Ok ∧ s.duties = runCalls calls)
    (fun calls i o => calls ++ iterationCalls i.buttons o)
    (fun i s r calls hs hstep => by
      have hiter := iterates_of_loop hs.1 hstep
      refine ⟨hiter.ok, ?_⟩
      rw [duties_step hiter, hs.2, runCalls, runCalls, List.foldl_append])
    (show (LoopState.init gzOffset gDeadzone).Ok ∧ _ = runCalls [] from
      ⟨LoopState.ok_init gzOffset gDeadzone, rfl⟩) h
  have hcalls : ∀ (ios : List (Input × Observation)) (calls : List SpeedCall),
      ios.foldl (fun calls io => calls ++ iterationCalls io.1.buttons io.2) calls =
        calls ++ callsOf ios := by
    intro ios
    induction ios with
    | nil => intro calls; simp [callsOf]
    | cons io ios ih => intro calls; simp [callsOf, ih]
  rw [hcalls] at hrefines
  exact hrefines.2

/-- After each iteration, the last call for a motor is the one of this iteration. -/
theorem lastCall_run (h : runLoop trig inputs (.init gzOffset gDeadzone) = .ok rs) {k : ℕ}
    {i : Input} {r : LoopState F × Observation} (hi : inputs[k]? = some i) (hr : rs[k]? = some r) :
    ∃ calls, r.1.duties = runCalls calls ∧
      ∀ m, lastCall calls m = if m ∈ motorsSet then some (callFor i.buttons r.2 m) else none := by
  have htake := runCalls_run (Machine.run_take h (k + 1))
  rw [Machine.final_take_succ hr, List.take_add_one, List.take_add_one, hi, hr] at htake
  set before := (inputs.take k).zip ((rs.take k).map Prod.snd)
  have hlen : (inputs.take k).length = ((rs.take k).map Prod.snd).length := by
    rw [List.length_map, List.length_take, List.length_take, Machine.length_of_run h]
  have hzip : (inputs.take k ++ (some i).toList).zip
      ((rs.take k ++ (some r).toList).map Prod.snd) = before ++ [(i, r.2)] := by
    rw [List.map_append, List.zip_append hlen]
    rfl
  rw [hzip, callsOf, List.flatMap_append, List.flatMap_singleton] at htake
  refine ⟨_, htake, fun m => ?_⟩
  rw [lastCall_iterationCalls]
  split_ifs with hm
  · rfl
  · rw [eq_two_of_notMem hm]
    exact lastCall_callsOf_two before

/-- The duties of each motor after an iteration. -/
theorem duties_run (h : runLoop trig inputs (.init gzOffset gDeadzone) = .ok rs) {k : ℕ}
    {i : Input} {r : LoopState F × Observation} (hi : inputs[k]? = some i) (hr : rs[k]? = some r)
    (m : Fin 6) :
    ((r.1.duties (dirChannel m)).toNat : ℤ) - (r.1.duties (pwmChannel m)).toNat =
        motorSpeeds i.buttons r.2 m ∧
      max (r.1.duties (dirChannel m)).toNat (r.1.duties (pwmChannel m)).toNat =
        if motorSpeeds i.buttons r.2 m = 0 then 0 else 255 := by
  obtain ⟨calls, hduties, hlast⟩ := lastCall_run h hi hr
  have hm := hlast m
  rw [hduties, runCalls_sub]
  split_ifs at hm with hset
  · obtain ⟨-, hslow, hstop⟩ := runCalls_mode hm
    rw [hm]
    refine ⟨clampSpeed_of_abs_le (abs_motorSpeeds_le _ _ _), ?_⟩
    split_ifs with hzero
    · obtain ⟨hdir, hpwm⟩ := hstop hzero
      rw [hdir, hpwm, max_self]
    · exact hslow hzero rfl
  · -- the motor that no call drives keeps the duties of power-on
    rcases runCalls_motor calls m with ⟨-, hdir, hpwm⟩ | ⟨c, dir, pwm, hc, -⟩
    · rw [hm, hdir, hpwm, eq_two_of_notMem hset]
      exact ⟨rfl, rfl⟩
    · rw [hm] at hc
      cases hc

/-- The duties of a channel that belongs to no motor are never written. -/
theorem duties_of_not_motor (h : runLoop trig inputs (.init gzOffset gDeadzone) = .ok rs) {k : ℕ}
    {i : Input} {r : LoopState F × Observation} (hi : inputs[k]? = some i) (hr : rs[k]? = some r)
    {channel : ℕ} (hchannel : ∀ m, channel ≠ dirChannel m ∧ channel ≠ pwmChannel m) :
    r.1.duties channel = Duties.init channel := by
  obtain ⟨calls, hduties, -⟩ := lastCall_run h hi hr
  rw [hduties]
  exact runCalls_of_not_motor calls hchannel

end Run

/-! ### Pins -/

/-- Nothing of the past reaches the motors. `motor_init` makes the two pins of each motor outputs
and then attaches them to its channels, each once, and it attaches no other pin. It sets up each of
these channels once, and if different timers serve different pairs of channels, then every setup
that reaches a timer of a motor is at the frequency of that motor. In every run from power-on and
after each of its iterations, the duties last written to the two channels of a motor differ by the
speed that this iteration has set: that of its wheel for what `drive_omni` has been called with,
that of the lift for the buttons, and 0 for motor 2, to which nothing is written. The larger duty is
255 unless the speed is 0, and then both are 0. No other channel is written. -/
theorem pins_run {F : Type} [Field F] [LinearOrder F] [IsStrictOrderedRing F] [FloorRing F]
    {timer : ℕ → ℕ} (htimer : TimersOfPairs timer) (trig : Trig F) (gzOffset gDeadzone : F)
    (inputs : List Input) :
    (∀ m, Wired motorInit m ∧ ∀ channel frequency bits,
        .ledcSetup channel frequency bits ∈ motorInit →
        timer channel = timer (dirChannel m) ∨ timer channel = timer (pwmChannel m) →
        frequency = frequencyOf m ∧ bits = 8) ∧
      (∀ pin channel, .ledcAttachPin pin channel ∈ motorInit → ∃ m,
        pin = dirPin m ∧ channel = dirChannel m ∨ pin = pwmPin m ∧ channel = pwmChannel m) ∧
      ∃ rs, runLoop trig inputs (.init gzOffset gDeadzone) = .ok rs ∧
        ∀ (k : ℕ) (i : Input) (r : LoopState F × Observation),
          inputs[k]? = some i → rs[k]? = some r →
          (∀ m, ((r.1.duties (dirChannel m)).toNat : ℤ) - (r.1.duties (pwmChannel m)).toNat =
              motorSpeeds i.buttons r.2 m ∧
            max (r.1.duties (dirChannel m)).toNat (r.1.duties (pwmChannel m)).toNat =
              if motorSpeeds i.buttons r.2 m = 0 then 0 else 255) ∧
          ∀ channel, (∀ m, channel ≠ dirChannel m ∧ channel ≠ pwmChannel m) →
            r.1.duties channel = Duties.init channel := by
  refine ⟨fun m => ⟨wired_motorInit m, fun _ _ _ => frequency_motorInit htimer⟩,
    fun _ _ => attached_motorInit, ?_⟩
  obtain ⟨rs, hrs, -⟩ := exists_runLoop trig inputs (LoopState.ok_init gzOffset gDeadzone)
  exact ⟨rs, hrs, fun k i r hi hr => ⟨duties_run hrs hi hr, fun _ => duties_of_not_motor hrs hi hr⟩⟩

/-- The timers of the chip, one for each pair of channels. -/
def pairTimer (channel : ℕ) : ℕ := channel / 2

theorem timersOfPairs_pairTimer : TimersOfPairs pairTimer := fun _ _ _ _ h => h

/-- The lift goes up while yaw hold turns the wheels. -/
theorem pins_run_lift :
    (∀ channel frequency bits, .ledcSetup channel frequency bits ∈ motorInit →
      pairTimer channel = pairTimer (dirChannel 3) → frequency = 1000) ∧
    ∃ rs, runLoop .constant [{ Input.untimed noiseRead 10 fun _ => .ofGz 0x7F 0xFF with
        buttons := { Buttons.released with up := true } }] (.init (0 : ℚ) 0) = .ok rs ∧
      ∀ r, rs[0]? = some r →
        ((r.1.duties 10).toNat : ℤ) - (r.1.duties 11).toNat = -200 ∧
          max (r.1.duties 10).toNat (r.1.duties 11).toNat = 255 := by
  obtain ⟨hinit, -, rs, hrs, hrun⟩ := pins_run timersOfPairs_pairTimer .constant (0 : ℚ) 0
    [{ Input.untimed noiseRead 10 fun _ => .ofGz 0x7F 0xFF with
        buttons := { Buttons.released with up := true } }]
  refine ⟨fun channel frequency bits h hshared => ((hinit 3).2 _ _ _ h (.inl hshared)).1,
    rs, hrs, fun r hr => (hrun 0 _ r rfl hr).1 3⟩
