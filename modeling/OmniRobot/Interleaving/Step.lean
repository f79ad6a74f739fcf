import OmniRobot.Loop.Spec

/-!
# Interleavings of the IMU code

`loop()`, the timer interrupt and `imu_reset_yaw` share the IMU variables under `g_imu_mux`. Each
critical section is one step. The interrupt and the reset may come between any two of them, while
`loop()` is at one place at a time: in a call of `imu_update`, or outside, where it may switch yaw
hold, read the yaw or call `imu_update`. What the code computes between two critical sections is
in its own locals, and is computed in the step before.

The steps of `loop()` are allowed in any order, so that the order of the source is one of many.

## Main results

* `imuTick_eq_steps`: the three steps of a pass of the `while` loop make one tick;
* `run_imuUpdate`: a call that nothing interrupts is `imuUpdate`;
* `run_imuStage`: the IMU stage of an iteration of `loop()` is one of the interleavings.
-/

namespace Interleaving

/-! ### State -/

/-- The local variables of `imu_update` at the test of its `while` loop, and the number of ticks
it returns. -/
@[ext]
structure Call (F : Type) where
  vrCmd : ℤ
  holdEnabled : Bool
  targetYaw : F
  ticksToProcess : ℕ
  ticksProcessed : ℕ
  deriving DecidableEq

/-- Where `imu_update` stands between two critical sections. -/
inductive Phase (F : Type) where
  /-- Not called yet, or past its last critical section. -/
  | idle
  /-- About to read a burst and the heading. -/
  | head (c : Call F)
  /-- About to write what it has made of the heading it read. -/
  | window (c : Call F) (next : IMUSnapshot F)
  /-- About to write the rotation for the heading it wrote. -/
  | drive (c : Call F) (newYaw : F)
  deriving DecidableEq

/-- The shared variables, and the place of `imu_update`. -/
@[ext]
structure Shared (F : Type) where
  imu : Imu F
  phase : Phase F
  deriving DecidableEq

/-- A critical section. -/
inductive Action where
  /-- `onImuTimer`. -/
  | timer
  /-- `imu_reset_yaw`. -/
  | reset
  /-- The yaw hold switch of `loop()`. -/
  | switch (vrCmd : ℤ)
  /-- The reads of `yaw_angle` and `vr_final` in `loop()`, for the headless mode and the monitor. -/
  | look
  /-- `imu_update` claims ticks and takes a copy of the hold flag and the target. -/
  | claim (vrCmd : ℤ)
  /-- It reads a burst and the heading. -/
  | readHeading (buf : Burst)
  /-- It writes `g_imu` and `yaw_angle`. -/
  | writeHeading
  /-- It writes `vr_final`. -/
  | writeRotation
  deriving DecidableEq

/-- What a critical section does that can be observed. -/
inductive Event (F : Type) where
  | interrupt
  | reset
  | looked (yawAngle : F) (vrFinal : ℤ)
  /-- Of the ticks pending, so many are claimed. -/
  | claimed (pending ticks : ℕ)
  | read (buf : Burst)
  | returned (ticksProcessed : ℕ)
  deriving DecidableEq

/-- The place after a claim or a pass of the `while` loop, and the return if no tick is left. -/
def Call.resume {F : Type} (c : Call F) : Phase F × List (Event F) :=
  if c.ticksToProcess = 0 then (.idle, [.returned c.ticksProcessed]) else (.head c, [])

/-! ### Events -/

/-- The bursts read. -/
def bursts {F : Type} (log : List (Event F)) : List Burst :=
  log.filterMap fun e => match e with
    | .read buf => some buf
    | _ => none

/-- The events that neither reset nor read. -/
def Event.Neutral {F : Type} : Event F → Prop
  | .reset | .read _ => False
  | _ => True

theorem resume_neutral {F : Type} (c : Call F) : ∀ e ∈ c.resume.2, e.Neutral := by
  unfold Call.resume
  split_ifs <;> simp [Event.Neutral]

theorem bursts_append {F : Type} (log es : List (Event F)) :
    bursts (log ++ es) = bursts log ++ bursts es := List.filterMap_append

theorem bursts_eq_nil {F : Type} {es : List (Event F)} (h : ∀ e ∈ es, e.Neutral) :
    bursts es = [] := by
  rw [bursts, List.filterMap_eq_nil_iff]
  intro e he
  cases e with
  | read buf => exact (h _ he).elim
  | _ => rfl

/-! ### Steps -/

section

variable {F : Type} [Field F] [LinearOrder F] [IsStrictOrderedRing F] [FloorRing F]

/-- `imu_reset_yaw`. -/
def imuResetYaw (s : Imu F) : Imu F := { s with gImu := { s.gImu with yaw := 0 } }

/-- What `imu_update` makes of a burst and the heading. -/
def nextSnapshot (s : Imu F) (buf : Burst) : IMUSnapshot F :=
  ⟨s.nextYaw buf, correctedRate s.gzOffset buf, int16OfBytes (buf 7) (buf 6) * accelSensitivity,
    int16OfBytes (buf 9) (buf 8) * accelSensitivity,
    int16OfBytes (buf 11) (buf 10) * accelSensitivity⟩

/-- The write of `g_imu` and `yaw_angle`. -/
def writeSnapshot (next : IMUSnapshot F) (s : Imu F) : Imu F :=
  { s with gImu := next, yawAngle := next.yaw }

/-- The rotation for a heading, and the write of `vr_final`. -/
def Call.writeRotation (c : Call F) (newYaw : F) (s : Imu F) : Imu F :=
  if c.holdEnabled then
    let r := computeYawPid c.targetYaw newYaw s
    { r.2 with vrFinal := r.1 }
  else { s with vrFinal := c.vrCmd }

/-- One critical section, where the place of `imu_update` allows it. -/
def step : Action → Shared F → Except Unit (Shared F × List (Event F))
  | .timer, s => .ok (⟨onImuTimer s.imu, s.phase⟩, [.interrupt])
  | .reset, s => .ok (⟨imuResetYaw s.imu, s.phase⟩, [.reset])
  | .switch vrCmd, ⟨imu, .idle⟩ => .ok (⟨switchYawHold vrCmd imu, .idle⟩, [])
  | .look, ⟨imu, .idle⟩ => .ok (⟨imu, .idle⟩, [.looked imu.yawAngle imu.vrFinal])
  | .claim vrCmd, ⟨imu, .idle⟩ =>
      let ticks := (claimTicks imu).1
      let c : Call F := ⟨vrCmd, imu.yawHoldEnabled, imu.yawTarget, ticks, ticks⟩
      .ok (⟨(claimTicks imu).2, c.resume.1⟩,
        .claimed imu.imuTickPending.toNat ticks :: c.resume.2)
  | .readHeading buf, ⟨imu, .head c⟩ =>
      .ok (⟨imu, .window { c with ticksToProcess := c.ticksToProcess - 1 } (nextSnapshot imu buf)⟩,
        [.read buf])
  | .writeHeading, ⟨imu, .window c next⟩ =>
      .ok (⟨writeSnapshot next imu, .drive c next.yaw⟩, [])
  | .writeRotation, ⟨imu, .drive c newYaw⟩ =>
      .ok (⟨c.writeRotation newYaw imu, c.resume.1⟩, c.resume.2)
  | _, _ => .error ()

/-- A run of critical sections. -/
abbrev runSteps (actions : List Action) (s : Shared F) :
    Except Unit (List (Shared F × List (Event F))) :=
  Machine.run step actions s

/-- What a step does: one case for each critical section, with the place it needs. -/
inductive Steps : Action → Shared F → Shared F × List (Event F) → Prop where
  | timer (imu : Imu F) (phase : Phase F) :
      Steps .timer ⟨imu, phase⟩ (⟨onImuTimer imu, phase⟩, [.interrupt])
  | reset (imu : Imu F) (phase : Phase F) :
      Steps .reset ⟨imu, phase⟩ (⟨imuResetYaw imu, phase⟩, [.reset])
  | switch (vrCmd : ℤ) (imu : Imu F) :
      Steps (.switch vrCmd) ⟨imu, .idle⟩ (⟨switchYawHold vrCmd imu, .idle⟩, [])
  | look (imu : Imu F) :
      Steps .look ⟨imu, .idle⟩ (⟨imu, .idle⟩, [.looked imu.yawAngle imu.vrFinal])
  | claim (vrCmd : ℤ) (imu : Imu F) (c : Call F)
      (hc : c = ⟨vrCmd, imu.yawHoldEnabled, imu.yawTarget, (claimTicks imu).1,
        (claimTicks imu).1⟩) :
      Steps (.claim vrCmd) ⟨imu, .idle⟩ (⟨(claimTicks imu).2, c.resume.1⟩,
        .claimed imu.imuTickPending.toNat c.ticksProcessed :: c.resume.2)
  | readHeading (buf : Burst) (imu : Imu F) (c : Call F) :
      Steps (.readHeading buf) ⟨imu, .head c⟩
        (⟨imu, .window { c with ticksToProcess := c.ticksToProcess - 1 } (nextSnapshot imu buf)⟩,
          [.read buf])
  | writeHeading (imu : Imu F) (c : Call F) (next : IMUSnapshot F) :
      Steps .writeHeading ⟨imu, .window c next⟩ (⟨writeSnapshot next imu, .drive c next.yaw⟩, [])
  | writeRotation (imu : Imu F) (c : Call F) (newYaw : F) :
      Steps .writeRotation ⟨imu, .drive c newYaw⟩
        (⟨c.writeRotation newYaw imu, c.resume.1⟩, c.resume.2)

theorem steps_of_step {a : Action} {s : Shared F} {r : Shared F × List (Event F)}
    (h : step a s = .ok r) : Steps a s r := by
  obtain ⟨imu, phase⟩ := s
  cases a with
  | timer =>
    cases h
    exact .timer imu phase
  | reset =>
    cases h
    exact .reset imu phase
  | _ =>
    -- every other action needs its place
    cases phase <;> cases h
    all_goals constructor
    all_goals rfl

/-! ### A call that nothing interrupts -/

/-- The three steps of a pass of the `while` loop make one tick. -/
theorem imuTick_eq_steps (c : Call F) (s : Imu F) (buf : Burst) :
    c.writeRotation (s.nextYaw buf) (writeSnapshot (nextSnapshot s buf) s) =
      imuTick c.holdEnabled c.targetYaw c.vrCmd s buf := rfl

/-- The steps of the passes that read the bursts `bufs`. -/
def passes (bufs : List Burst) : List Action :=
  bufs.flatMap fun buf => [.readHeading buf, .writeHeading, .writeRotation]

/-- The passes of a call process its ticks, and it returns after the last one. -/
theorem run_passes (bufs : List Burst) (c : Call F) (imu : Imu F)
    (hc : c.ticksToProcess = bufs.length) :
    ∃ rs, runSteps (passes bufs) ⟨imu, c.resume.1⟩ = .ok rs ∧
      Machine.final ⟨imu, c.resume.1⟩ rs =
        ⟨bufs.foldl (imuTick c.holdEnabled c.targetYaw c.vrCmd) imu, .idle⟩ ∧
      c.resume.2 ++ Machine.log rs = bufs.map .read ++ [.returned c.ticksProcessed] := by
  induction bufs generalizing c imu with
  | nil =>
    have hresume : c.resume = (.idle, [.returned c.ticksProcessed]) := if_pos hc
    rw [hresume]
    exact ⟨[], rfl, rfl, rfl⟩
  | cons buf bufs ih =>
    have hresume : c.resume = (.head c, []) := if_neg (by rw [hc]; exact Nat.succ_ne_zero _)
    obtain ⟨rs, hrs, hfinal, hlog⟩ := ih { c with ticksToProcess := c.ticksToProcess - 1 }
      (imuTick c.holdEnabled c.targetYaw c.vrCmd imu buf) (by rw [hc]; rfl)
    rw [hresume]
    refine ⟨_, Machine.run_cons_eq_ok.mpr ⟨_, _, rfl, Machine.run_cons_eq_ok.mpr ⟨_, _, rfl,
      Machine.run_cons_eq_ok.mpr ⟨_, rs, rfl, hrs, rfl⟩, rfl⟩, rfl⟩, ?_, ?_⟩
    · rw [Machine.final_cons, Machine.final_cons, Machine.final_cons]
      exact hfinal
    · rw [List.map_cons, List.cons_append, ← hlog]
      rfl

/-- The steps of a call of `imu_update`, for the samples its bursts read. -/
def callSteps (vrCmd : ℤ) (samples : ℕ → Burst) (ticks : ℕ) : List Action :=
  .claim vrCmd :: passes ((List.range ticks).map samples)

/-- A call that nothing interrupts is `imuUpdate`: it leaves the same variables, reads the same
bursts and returns the same number. -/
theorem run_imuUpdate (vrCmd : ℤ) (samples : ℕ → Burst) (imu : Imu F) :
    ∃ rs, runSteps (callSteps vrCmd samples (imuUpdate vrCmd samples imu).1) ⟨imu, .idle⟩ = .ok rs ∧
      Machine.final ⟨imu, .idle⟩ rs = ⟨(imuUpdate vrCmd samples imu).2, .idle⟩ ∧
      Machine.log rs =
        .claimed imu.imuTickPending.toNat (imuUpdate vrCmd samples imu).1 ::
          ((List.range (imuUpdate vrCmd samples imu).1).map (.read ∘ samples) ++
            [.returned (imuUpdate vrCmd samples imu).1]) := by
  obtain ⟨rs, hrs, hfinal, hlog⟩ := run_passes ((List.range (claimTicks imu).1).map samples)
    ⟨vrCmd, imu.yawHoldEnabled, imu.yawTarget, (claimTicks imu).1, (claimTicks imu).1⟩
    (claimTicks imu).2 (by rw [List.length_map, List.length_range])
  refine ⟨_, Machine.run_cons_eq_ok.mpr ⟨_, rs, rfl, hrs, rfl⟩, ?_, ?_⟩
  · rw [Machine.final_cons]
    exact hfinal
  · rw [List.map_map] at hlog
    rw [Machine.log_cons, List.cons_append, hlog]
    rfl

/-- Interrupts that come in a row. -/
theorem run_timers (n : ℕ) (s : Shared F) :
    ∃ rs, runSteps (List.replicate n .timer) s = .ok rs ∧
      Machine.final s rs = ⟨onImuTimer^[n] s.imu, s.phase⟩ := by
  induction n generalizing s with
  | zero => exact ⟨[], rfl, rfl⟩
  | succ n ih =>
    obtain ⟨rs, hrs, hfinal⟩ := ih ⟨onImuTimer s.imu, s.phase⟩
    refine ⟨_, Machine.run_cons_eq_ok.mpr ⟨_, rs, rfl, hrs, rfl⟩, ?_⟩
    rw [Machine.final_cons]
    exact hfinal

/-- The IMU stage of an iteration of `loop()` is the interleaving with all interrupts between the
switch and the claim. -/
theorem run_imuStage (i : Input) (vrCmd : ℤ) (imu : Imu F) :
    ∃ ticks rs, runSteps (.switch vrCmd ::
        (List.replicate i.ticks .timer ++ callSteps vrCmd i.samples ticks)) ⟨imu, .idle⟩ = .ok rs ∧
      Machine.final ⟨imu, .idle⟩ rs = ⟨imuStage i vrCmd imu, .idle⟩ := by
  obtain ⟨rs, hrs, hfinal⟩ := run_timers i.ticks ⟨switchYawHold vrCmd imu, .idle⟩
  obtain ⟨rs', hrs', hfinal', -⟩ :=
    run_imuUpdate vrCmd i.samples (onImuTimer^[i.ticks] (switchYawHold vrCmd imu))
  rw [← hfinal] at hrs'
  refine ⟨_, _, Machine.run_cons_eq_ok.mpr
    ⟨(⟨switchYawHold vrCmd imu, .idle⟩, []), _, rfl, Machine.run_append hrs hrs', rfl⟩, ?_⟩
  rw [Machine.final_cons, Machine.final_append, hfinal]
  exact hfinal'

end

end Interleaving
