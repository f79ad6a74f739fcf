import OmniRobot.Crsf.Pacing
import OmniRobot.Imu.YawHold
import OmniRobot.Loop.Step
import OmniRobot.Machine.Run

/-!
# What one iteration does

`Iterates` says everything that later proofs use of one call of `loop()`: which variables the RC
stage may change and to what, what the IMU stage leaves, and what is driven. From any state whose
parser is as the parser leaves it, an iteration ends without a fault and `Iterates`, so a run
never stops.

## Main results

* `loop_iterates`: every iteration is as `Iterates` says, and there is one;
* `exists_runLoop`: every list of inputs has a run;
* `runLoop_forall`: an invariant and a guarantee of `Iterates` hold along every run;
* `runLoop_induction`: the same for what depends on the number of iterations.
-/

/-- The parser is as a call of `crsf_parse` leaves it. -/
structure LoopState.Ok {F : Type} (s : LoopState F) : Prop where
  position_lt : s.parser.currentFramePosition < 30
  settled : Crsf.Settled s.parser.view

theorem LoopState.ok_init {F : Type} [Field F] (gzOffset gDeadzone : F) :
    (LoopState.init gzOffset gDeadzone).Ok :=
  ⟨Nat.zero_lt_succ _, Crsf.settled_init⟩

variable {F : Type} [Field F] [LinearOrder F] [IsStrictOrderedRing F] [FloorRing F]

/-- The IMU variables after the IMU stage, for the command `vrCmd`. -/
def imuStage (i : Input) (vrCmd : ℤ) (imu : Imu F) : Imu F :=
  (imuUpdate vrCmd i.samples (onImuTimer^[i.ticks] (switchYawHold vrCmd imu))).2

/-- The ticks an iteration claims, of those pending and those that arrive before the claim: the
bursts they read, and the number of ticks left pending. -/
def Input.claim (i : Input) (pending : UInt32) : List Burst × UInt32 :=
  let available := pending + UInt32.ofNat i.ticks
  let ticks := min available 10
  ((List.range ticks.toNat).map i.samples, available - ticks)

omit [Field F] [LinearOrder F] [IsStrictOrderedRing F] [FloorRing F] in
theorem iterate_onImuTimer (n : ℕ) (s : Imu F) :
    onImuTimer^[n] s = { s with imuTickPending := s.imuTickPending + UInt32.ofNat n } := by
  induction n with
  | zero => simp
  | succ n ih =>
    rw [Function.iterate_succ_apply', ih, onImuTimer]
    simp [UInt32.ofNat_add, UInt32.add_assoc]

/-- The IMU stage processes the bursts it claims. -/
theorem imuStage_eq (i : Input) (vrCmd : ℤ) (imu : Imu F) :
    imuStage i vrCmd imu =
      (i.claim imu.imuTickPending).1.foldl
        (imuTick (switchYawHold vrCmd imu).yawHoldEnabled (switchYawHold vrCmd imu).yawTarget vrCmd)
        { switchYawHold vrCmd imu with
          imuTickPending := (i.claim imu.imuTickPending).2 } := by
  -- the switch comes first, and leaves the ticks alone
  have hpending : (switchYawHold vrCmd imu).imuTickPending = imu.imuTickPending := by
    unfold switchYawHold
    split_ifs <;> rfl
  rw [imuStage, iterate_onImuTimer, hpending]
  rfl

theorem imuStage_imuTickPending (i : Input) (vrCmd : ℤ) (imu : Imu F) :
    (imuStage i vrCmd imu).imuTickPending = (i.claim imu.imuTickPending).2 := by
  rw [imuStage_eq]
  exact (ticks_sameSettings _ _ _ _ _).imuTickPending_eq

/-- While the pilot turns, the integral is reset and the stick command driven. -/
theorem imuStage_stick (i : Input) {vrCmd : ℤ} (h : 20 < |vrCmd|) (imu : Imu F) :
    (imuStage i vrCmd imu).memory = ⟨0, imu.pidPrevErr⟩ ∧
      (imuStage i vrCmd imu).vrFinal =
        if (i.claim imu.imuTickPending).1 = [] then imu.vrFinal else vrCmd := by
  have hswitch : switchYawHold vrCmd imu =
      { imu with yawHoldEnabled := false, yawTarget := imu.yawAngle, pidIntegral := 0 } := if_pos h
  rw [imuStage_eq, hswitch]
  exact ticks_stick _ _ _ _

/-- Otherwise yaw hold runs on the bursts claimed. -/
theorem imuStage_hold (i : Input) {vrCmd : ℤ} (h : ¬ 20 < |vrCmd|) (imu : Imu F) :
    Imu.Held { imu with yawHoldEnabled := true, imuTickPending := (i.claim imu.imuTickPending).2 }
      imu.yawTarget (i.claim imu.imuTickPending).1 (imuStage i vrCmd imu) := by
  have hswitch : switchYawHold vrCmd imu = { imu with yawHoldEnabled := true } := if_neg h
  rw [imuStage_eq, hswitch]
  exact ticks_hold _ _ _ _

/-- One iteration from `s`. -/
structure Iterates (trig : Trig F) (i : Input) (s : LoopState F)
    (r : LoopState F × Observation) : Prop where
  ok : r.1.Ok
  /-- At most one frame is decoded, and the channels are those of the last one. -/
  decodes_le : r.2.decodes.length ≤ 1
  rc_eq : r.1.rc = (r.2.decodes.getLast?.map Crsf.Decode.out).getD s.rc
  /-- Without a byte the RC stage does nothing. -/
  silent : i.serial.val = [] → r.2.decodes = [] ∧ r.1.pilot = s.pilot ∧
    r.1.servos = (s.servos.notify i.buttons).write i.nowUsServo
  /-- With one, it acts on the channels, decoded in this iteration or not. -/
  heard : i.serial.val ≠ [] → r.1.pilot = s.pilot.update r.1.rc.values i.buttons.circle ∧
    r.1.servos = ((s.servos.notify i.buttons).write i.nowUsServo).toggleMid r.1.rc.values
  imu_eq : r.1.imu = imuStage i r.1.pilot.vrCmd s.imu
  headlessPrev_eq : r.1.headlessPrev = r.1.pilot.headlessMode
  headlessYawRef_eq : r.1.headlessYawRef =
    if r.1.pilot.headlessMode && !s.headlessPrev then r.1.imu.yawAngle else s.headlessYawRef
  drive_eq : (r.2.vx, r.2.vy, r.2.vr) = driveCommand trig r.1
  duties_eq : r.1.duties =
    driveOmni (notifyMotor i.buttons s.duties) r.2.vx r.2.vy r.2.vr

/-- The part of an iteration after the RC stage, in the terms of `Iterates`. -/
theorem steer_eq (i : Input) (s : LoopState F) :
    steer i s = { s with
      imu := imuStage i s.pilot.vrCmd s.imu
      monitor := (steer i s).monitor
      headlessPrev := s.pilot.headlessMode
      headlessYawRef :=
        if s.pilot.headlessMode && !s.headlessPrev then
          (imuStage i s.pilot.vrCmd s.imu).yawAngle
        else s.headlessYawRef } := by
  unfold steer lockHeadless imuStage
  dsimp only
  split_ifs <;> rfl

/-- An iteration ends without a fault, and does what `Iterates` says. -/
theorem loop_iterates (trig : Trig F) (i : Input) {s : LoopState F} (hs : s.Ok) :
    ∃ r, loop trig i s = .ok r ∧ Iterates trig i s r := by
  have hprepare : prepare i s = { s with
      duties := notifyMotor i.buttons s.duties
      servos := (s.servos.notify i.buttons).write i.nowUsServo } := rfl
  by_cases hserial : i.serial.val = []
  · -- no byte: the RC stage is skipped
    have hreceive : receive i (prepare i s) = .ok (prepare i s, []) := if_pos hserial
    refine ⟨_, by rw [loop, hreceive, Crsf.ok_bind]; rfl, ?_⟩
    rw [steer_eq, hprepare]
    exact ⟨⟨hs.position_lt, hs.settled⟩, Nat.zero_le _, rfl, fun _ => ⟨rfl, rfl, rfl⟩,
      fun h => absurd hserial h, rfl, rfl, rfl, rfl, rfl⟩
  · -- some bytes: the parser takes them, and the toggle and the pilot act on the channels
    obtain ⟨p, hparse, hlt, hsettled, hle, -, hout⟩ := Crsf.crsfParse_decodes_le_one
      rcInputMaxChannels s.rc hs.position_lt hs.settled i.serial.property
    have hreceive : receive i (prepare i s) = .ok ({ prepare i s with
        parser := p.parser
        rc := p.out
        servos := (prepare i s).servos.toggleMid p.out.values
        pilot := (prepare i s).pilot.update p.out.values i.buttons.circle }, p.decodes) := by
      rw [receive, if_neg hserial, hprepare, hparse]
      rfl
    refine ⟨_, by rw [loop, hreceive, Crsf.ok_bind]; rfl, ?_⟩
    rw [steer_eq, hprepare]
    exact ⟨⟨hlt, hsettled⟩, hle, hout, fun h => absurd h hserial, fun _ => ⟨rfl, rfl⟩, rfl, rfl,
      rfl, rfl, rfl⟩

theorem iterates_of_loop {trig : Trig F} {i : Input} {s : LoopState F}
    {r : LoopState F × Observation} (hs : s.Ok) (h : loop trig i s = .ok r) :
    Iterates trig i s r := by
  obtain ⟨r', hr', hiter⟩ := loop_iterates trig i hs
  rwa [Except.ok.inj (hr'.symm.trans h)] at hiter

/-- The loop sees the channels of every frame it decodes. -/
theorem Iterates.rc_of_mem {trig : Trig F} {i : Input} {s : LoopState F}
    {r : LoopState F × Observation} (h : Iterates trig i s r) {d : Crsf.Decode}
    (hd : d ∈ r.2.decodes) : r.1.rc = d.out := by
  have hle := h.decodes_le
  rw [h.rc_eq]
  match hdecodes : r.2.decodes with
  | [] => rw [hdecodes] at hd; cases hd
  | [d'] =>
    rw [hdecodes, List.mem_singleton] at hd
    rw [hd]
    rfl
  | _ :: _ :: _ => rw [hdecodes] at hle; simp at hle

/-! ### Runs -/

/-- Iteration after iteration: the states after each, with what was observed. -/
def runLoop (trig : Trig F) (inputs : List Input) (s : LoopState F) :
    Crsf.Checked (List (LoopState F × Observation)) :=
  Machine.run (loop trig) inputs s

/-- Every list of inputs has a run. -/
theorem exists_runLoop (trig : Trig F) (inputs : List Input) {s : LoopState F} (hs : s.Ok) :
    ∃ rs, runLoop trig inputs s = .ok rs ∧ (Machine.final s rs).Ok := by
  refine Machine.exists_run (fun i s hs => ?_) inputs hs
  obtain ⟨r, hr, hiter⟩ := loop_iterates trig i hs
  exact ⟨r, hr, hiter.ok⟩

/-- An invariant `P` that every iteration keeps, and what it guarantees from it, hold along every
run. -/
theorem runLoop_forall {trig : Trig F} {P : LoopState F → Prop}
    {Q : LoopState F × Observation → Prop}
    (hstep : ∀ i s r, s.Ok → P s → Iterates trig i s r → P r.1 ∧ Q r)
    {inputs : List Input} {s : LoopState F} {rs : List (LoopState F × Observation)} (hs : s.Ok)
    (hinv : P s) (h : runLoop trig inputs s = .ok rs) :
    P (Machine.final s rs) ∧ ∀ r ∈ rs, P r.1 ∧ Q r := by
  have hstep' : ∀ i s r, s.Ok ∧ P s → loop trig i s = .ok r → (r.1.Ok ∧ P r.1) ∧ Q r := by
    rintro i s r ⟨hok, hP⟩ hr
    have hiter := iterates_of_loop hok hr
    obtain ⟨h₁, h₂⟩ := hstep i s r hok hP hiter
    exact ⟨⟨hiter.ok, h₁⟩, h₂⟩
  obtain ⟨hfinal, hall⟩ := Machine.run_forall hstep' ⟨hs, hinv⟩ h
  exact ⟨hfinal.2, fun r hr => ⟨(hall r hr).1.2, (hall r hr).2⟩⟩

/-- Each place of a run is an iteration from the state before. -/
theorem iterates_of_run {trig : Trig F} {inputs : List Input} {s : LoopState F}
    {rs : List (LoopState F × Observation)} (hs : s.Ok) (h : runLoop trig inputs s = .ok rs)
    {k : ℕ} {r : LoopState F × Observation} (hk : rs[k]? = some r) :
    ∃ i, inputs[k]? = some i ∧ Iterates trig i (Machine.final s (rs.take k)) r := by
  obtain ⟨i, hi, hstep⟩ := Machine.step_of_run h hk
  -- the state before place `k` is the end of a shorter run
  have htotal : ∀ i s, LoopState.Ok s → ∃ r, loop trig i s = .ok r ∧ r.1.Ok := by
    intro i s hs
    obtain ⟨r, hr, hiter⟩ := loop_iterates trig i hs
    exact ⟨r, hr, hiter.ok⟩
  obtain ⟨rs', hrs', hok⟩ := Machine.exists_run htotal (inputs.take k) hs
  obtain rfl : rs' = rs.take k := Except.ok.inj (hrs'.symm.trans (Machine.run_take h k))
  exact ⟨i, hi, iterates_of_loop hok hstep⟩

/-- What each iteration carries on holds after any number of iterations. -/
theorem runLoop_induction {trig : Trig F} {P : ℕ → LoopState F → Prop} {inputs : List Input}
    {s : LoopState F} {rs : List (LoopState F × Observation)}
    (hstep : ∀ k i s r, inputs[k]? = some i → s.Ok → P k s → Iterates trig i s r → P (k + 1) r.1)
    (hs : s.Ok) (hP : P 0 s) (h : runLoop trig inputs s = .ok rs) {k : ℕ}
    (hk : k ≤ inputs.length) : P k (Machine.final s (rs.take k)) := by
  have hstep' : ∀ k i s r, inputs[k]? = some i → LoopState.Ok s ∧ P k s → loop trig i s = .ok r →
      r.1.Ok ∧ P (k + 1) r.1 := by
    rintro k i s r hi ⟨hok, hP⟩ hr
    have hiter := iterates_of_loop hok hr
    exact ⟨hiter.ok, hstep k i s r hi hok hP hiter⟩
  exact (Machine.run_induction (P := fun k s => s.Ok ∧ P k s) hstep' ⟨hs, hP⟩ h hk).2

/-! ### Reads -/

theorem length_nil_le_sbusBufferSize : ([] : List UInt8).length ≤ sbusBufferSize := Nat.zero_le _

/-- No byte. -/
def silentRead : { l : List UInt8 // l.length ≤ sbusBufferSize } :=
  ⟨[], length_nil_le_sbusBufferSize⟩

/-- One byte of noise. -/
def noiseRead : { l : List UInt8 // l.length ≤ sbusBufferSize } := ⟨[0], by decide⟩

/-- The frame whose payload bytes are all `b`, without its last byte. -/
def frontRead (b : UInt8) : { l : List UInt8 // l.length ≤ sbusBufferSize } :=
  ⟨(Crsf.constFrame b).take 25, List.length_take_le _ _⟩

/-- The last byte of that frame. -/
def backRead (b : UInt8) : { l : List UInt8 // l.length ≤ sbusBufferSize } :=
  ⟨(Crsf.constFrame b).drop 25, by
    rw [List.length_drop, show (Crsf.constFrame b).length = 26 from rfl]
    decide⟩
