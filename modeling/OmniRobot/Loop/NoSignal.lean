import OmniRobot.Imu.YawHold
import OmniRobot.Loop.Spec

/-!
# Before the first radio frame

Until a frame is decoded every channel reads 0. The first byte of noise is enough to act on them:
channel 5 at 0 selects a pilot, its stick commands are 0, and so the wheels turn as yaw hold
demands, from the yaw that the IMU has measured since power-on. Without a byte the mode stays
`none` and the wheels stand still.

## Main results

* `holds_step`, `silent_step`: one iteration without a decode;
* `wheelsAtRest_run`: when the wheels stand still, exactly;
* `wheels_turn_without_signal`: one byte of noise and a turning sensor.
-/

open Control (Memory lastDemand)

/-! ### What the inputs say -/

/-- The bursts that a list of iterations has read, and the ticks still pending after it. -/
structure Claimed where
  pending : UInt32
  bursts : List Burst

/-- Nothing claimed yet. -/
def Claimed.init : Claimed := ⟨0, []⟩

/-- What one more iteration claims. -/
def Claimed.step (c : Claimed) (i : Input) : Claimed :=
  ⟨(i.claim c.pending).2, c.bursts ++ (i.claim c.pending).1⟩

/-- What a list of iterations from power-on claims. -/
def claimed (inputs : List Input) : Claimed := inputs.foldl Claimed.step .init

variable {F : Type} [Field F] [LinearOrder F] [IsStrictOrderedRing F] [FloorRing F]

/-- The heading errors against the yaw at power-on, burst by burst. -/
def driftErrors (gzOffset gDeadzone : F) (bufs : List Burst) : List F :=
  yawErrors gzOffset gDeadzone 0 0 bufs

/-- The rotation that yaw hold demands for the yaw measured since power-on. -/
def driftDemand (gzOffset gDeadzone : F) (bufs : List Burst) : F :=
  lastDemand yawGains ⟨0, 0⟩ (driftErrors gzOffset gDeadzone bufs)

/-! ### One iteration -/

/-- Yaw hold has held the yaw of power-on through all the bursts claimed. -/
structure HoldsYaw (gzOffset gDeadzone : F) (c : Claimed) (imu : Imu F) : Prop where
  gzOffset_eq : imu.gzOffset = gzOffset
  gDeadzone_eq : imu.gDeadzone = gDeadzone
  yawTarget_eq : imu.yawTarget = 0
  pending_eq : imu.imuTickPending = c.pending
  yaw_eq : imu.gImu.yaw = yawAfter gzOffset gDeadzone 0 c.bursts
  memory_eq : imu.memory =
    Memory.after yawGains ⟨0, 0⟩ (driftErrors gzOffset gDeadzone c.bursts)
  vrFinal_eq : imu.vrFinal = rotationFor (driftDemand gzOffset gDeadzone c.bursts)

theorem holds_init (gzOffset gDeadzone : F) :
    HoldsYaw gzOffset gDeadzone .init (.init gzOffset gDeadzone) := by
  refine ⟨rfl, rfl, rfl, rfl, rfl, rfl, ?_⟩
  -- no error yet, so no demand
  rw [eq_comm, Imu.init, rotationFor_eq_zero_iff]
  change |(0 : F)| < 1
  rw [abs_zero]
  exact one_pos

/-- With the turn stick at 0, an iteration holds on. -/
theorem holds_step {gzOffset gDeadzone : F} {c : Claimed} {imu : Imu F} (i : Input)
    (h : HoldsYaw gzOffset gDeadzone c imu) :
    HoldsYaw gzOffset gDeadzone (c.step i) (imuStage i 0 imu) := by
  obtain ⟨⟨hoff, hdz, htarget, hpending, -⟩, hyaw, hmemory, hvr⟩ :=
    imuStage_hold i (show ¬ 20 < |(0 : ℤ)| by decide) imu
  rw [h.pending_eq] at hpending hyaw hmemory hvr
  set bufs := (i.claim c.pending).1 with hbufs
  have hbursts : (c.step i).bursts = c.bursts ++ bufs := rfl
  have herrors : Imu.errors { imu with
      yawHoldEnabled := true, imuTickPending := (i.claim c.pending).2 } imu.yawTarget bufs =
      yawErrors gzOffset gDeadzone 0 (yawAfter gzOffset gDeadzone 0 c.bursts) bufs := by
    rw [Imu.errors, h.yawTarget_eq, h.gzOffset_eq, h.gDeadzone_eq, h.yaw_eq]
  have happend : driftErrors gzOffset gDeadzone (c.step i).bursts =
      driftErrors gzOffset gDeadzone c.bursts ++
        yawErrors gzOffset gDeadzone 0 (yawAfter gzOffset gDeadzone 0 c.bursts) bufs := by
    rw [hbursts]
    exact yawErrors_append _ _ _ _ _ _
  -- the stage goes on from the memory that the earlier bursts have left
  rw [herrors] at hmemory hvr
  refine ⟨hoff.trans h.gzOffset_eq, hdz.trans h.gDeadzone_eq, htarget.trans h.yawTarget_eq,
    hpending, ?_, ?_, ?_⟩
  · rw [hyaw, h.gzOffset_eq, h.gDeadzone_eq, h.yaw_eq, hbursts, yawAfter_append]
  · rw [hmemory, happend, Memory.after_append, ← h.memory_eq]
    rfl
  · rw [hvr, driftDemand, happend]
    by_cases hnil : bufs = []
    · rw [if_pos hnil, hnil, yawErrors, List.append_nil]
      exact h.vrFinal_eq
    · -- the last demand is the one for the last of the new bursts
      have hne : yawErrors gzOffset gDeadzone 0 (yawAfter gzOffset gDeadzone 0 c.bursts) bufs ≠
          [] := by
        rw [← List.length_pos_iff, length_yawErrors]
        exact List.length_pos_iff.mpr hnil
      rw [if_neg hnil, Control.lastDemand_append_of_ne _ _ _ hne, ← h.memory_eq]
      rfl

/-- Nothing has been decoded since power-on; `heard` says whether a byte has arrived. -/
structure Silent (gzOffset gDeadzone : F) (heard : Bool) (c : Claimed) (s : LoopState F) :
    Prop where
  rc_eq : s.rc = .init
  vxCmd_eq : s.pilot.vxCmd = 0
  vyCmd_eq : s.pilot.vyCmd = 0
  vrCmd_eq : s.pilot.vrCmd = 0
  mode_eq : s.pilot.mode = if heard then .phucPilot else .none
  holds : HoldsYaw gzOffset gDeadzone c s.imu

theorem silent_init (gzOffset gDeadzone : F) :
    Silent gzOffset gDeadzone false .init (.init gzOffset gDeadzone) :=
  ⟨rfl, rfl, rfl, rfl, rfl, holds_init gzOffset gDeadzone⟩

/-- The commands of the second pilot. -/
theorem Pilot.update_phucPilot {values : ℕ → UInt16} (h : selectMode values = .phucPilot)
    (circle : Bool) (p : Pilot) :
    (p.update values circle).mode = .phucPilot ∧
      (p.update values circle).vxCmd = mapRC (values 2) (speedLimit values circle p.speed) ∧
      (p.update values circle).vyCmd = mapRC (values 3) (speedLimit values circle p.speed) ∧
      (p.update values circle).vrCmd = mapRC (values 0) 120 := by
  unfold Pilot.update
  simp only [h, and_self]

/-- Channels at 0 select a pilot whose commands are 0. -/
theorem update_init (circle : Bool) (p : Pilot) :
    (p.update Crsf.RcOutput.init.values circle).mode = .phucPilot ∧
      (p.update Crsf.RcOutput.init.values circle).vxCmd = 0 ∧
      (p.update Crsf.RcOutput.init.values circle).vyCmd = 0 ∧
      (p.update Crsf.RcOutput.init.values circle).vrCmd = 0 := by
  -- 0 is below the range that counts as a signal
  have hzero : ∀ speed, mapRC 0 speed = 0 := by
    apply mapRC_of_not_hasSignal
    rintro ⟨h, -⟩
    simp at h
  have hmode : selectMode Crsf.RcOutput.init.values = .phucPilot := by decide +kernel
  obtain ⟨h, hvx, hvy, hvr⟩ := Pilot.update_phucPilot hmode circle p
  exact ⟨h, hvx.trans (hzero _), hvy.trans (hzero _), hvr.trans (hzero _)⟩

/-- An iteration without a decode. -/
theorem silent_step {trig : Trig F} {i : Input} {s : LoopState F} {r : LoopState F × Observation}
    (h : Iterates trig i s r) {gzOffset gDeadzone : F} {heard : Bool} {c : Claimed}
    (hs : Silent gzOffset gDeadzone heard c s) (hdecodes : r.2.decodes = []) :
    Silent gzOffset gDeadzone (heard || !i.serial.val.isEmpty) (c.step i) r.1 := by
  have hrc : r.1.rc = .init := by
    rw [h.rc_eq, hdecodes]
    exact hs.rc_eq
  have himu := h.imu_eq
  by_cases hserial : i.serial.val = []
  · -- no byte: the pilot keeps its mode and its commands
    have hpilot := (h.silent hserial).2.1
    rw [hpilot, hs.vrCmd_eq] at himu
    refine ⟨hrc, ?_, ?_, ?_, ?_, himu ▸ holds_step i hs.holds⟩
    · rw [hpilot, hs.vxCmd_eq]
    · rw [hpilot, hs.vyCmd_eq]
    · rw [hpilot, hs.vrCmd_eq]
    · rw [hpilot, hs.mode_eq, hserial]
      simp
  · -- a byte: the pilot acts on channels that all read 0
    have hpilot := (h.heard hserial).1
    rw [hrc] at hpilot
    obtain ⟨hmode, hvx, hvy, hvr⟩ := update_init i.buttons.circle s.pilot
    rw [hpilot, hvr] at himu
    refine ⟨hrc, ?_, ?_, ?_, ?_, himu ▸ holds_step i hs.holds⟩
    · rw [hpilot, hvx]
    · rw [hpilot, hvy]
    · rw [hpilot, hvr]
    · rw [hpilot, hmode]
      simp [hserial]

/-- What is driven without a signal: the rotation of yaw hold, once a byte has arrived. -/
theorem driveCommand_silent (trig : Trig F) {gzOffset gDeadzone : F} {heard : Bool} {c : Claimed}
    {s : LoopState F} (hs : Silent gzOffset gDeadzone heard c s) :
    driveCommand trig s =
      (0, 0, if heard then rotationFor (driftDemand gzOffset gDeadzone c.bursts) else 0) := by
  unfold driveCommand
  dsimp only
  rw [hs.mode_eq, hs.vxCmd_eq, hs.vyCmd_eq, hs.holds.vrFinal_eq]
  cases heard with
  | false => rfl
  | true =>
    rw [if_pos (by decide)]
    -- a stick at 0 stays at 0 when it is rotated
    cases s.pilot.headlessMode <;> simp

/-! ### Runs -/

/-- Whether a decode or a byte has been seen, and what has been claimed. -/
structure Listening where
  decoded : Bool
  heard : Bool
  claimed : Claimed

/-- Before the first iteration. -/
def Listening.init : Listening := ⟨false, false, .init⟩

/-- One more iteration. -/
def Listening.update (l : Listening) (i : Input) (o : Observation) : Listening :=
  ⟨l.decoded || !o.decodes.isEmpty, l.heard || !i.serial.val.isEmpty, l.claimed.step i⟩

/-- As long as nothing is decoded, the state is silent. -/
structure LoopState.Listens (gzOffset gDeadzone : F) (s : LoopState F) (l : Listening) : Prop where
  ok : s.Ok
  silent : l.decoded = false → Silent gzOffset gDeadzone l.heard l.claimed s

theorem listens_step {trig : Trig F} {i : Input} {s : LoopState F}
    {r : LoopState F × Observation} (h : Iterates trig i s r) {gzOffset gDeadzone : F}
    {l : Listening} (hs : s.Listens gzOffset gDeadzone l) :
    r.1.Listens gzOffset gDeadzone (l.update i r.2) := by
  refine ⟨h.ok, fun hdecoded => ?_⟩
  rw [Listening.update, Bool.or_eq_false_iff, Bool.not_eq_false', List.isEmpty_iff] at hdecoded
  exact silent_step h (hs.silent hdecoded.1) hdecoded.2

/-- The listening of a run without a decode, from its inputs. -/
theorem foldl_listening {ios : List (Input × Observation)} (h : ∀ io ∈ ios, io.2.decodes = [])
    (l : Listening) :
    ios.foldl (fun l io => l.update io.1 io.2) l =
      ⟨l.decoded, l.heard || (ios.map Prod.fst).any fun i => !i.serial.val.isEmpty,
        (ios.map Prod.fst).foldl Claimed.step l.claimed⟩ := by
  induction ios generalizing l with
  | nil => simp
  | cons io ios ih =>
    rw [List.foldl_cons, ih fun io' hio' => h io' (List.mem_cons_of_mem _ hio')]
    simp [Listening.update, h io List.mem_cons_self, Bool.or_assoc]

/-- When the wheels stand still without a signal. In every run from power-on, after each iteration
up to which nothing has been decoded, the drive motors stand still if and only if no byte has
arrived so far, or the rotation that yaw hold demands for the yaw measured since power-on is below
one. -/
theorem wheelsAtRest_run (trig : Trig F) (gzOffset gDeadzone : F) (inputs : List Input) :
    ∃ rs, runLoop trig inputs (.init gzOffset gDeadzone) = .ok rs ∧
      ∀ k r, rs[k]? = some r → (∀ r' ∈ rs.take (k + 1), r'.2.decodes = []) →
        (WheelsAtRest r.1.duties ↔
          (∀ i ∈ inputs.take (k + 1), i.serial.val = []) ∨
            |driftDemand gzOffset gDeadzone (claimed (inputs.take (k + 1))).bursts| < 1) := by
  obtain ⟨rs, hrs, -⟩ := exists_runLoop trig inputs (LoopState.ok_init gzOffset gDeadzone)
  refine ⟨rs, hrs, fun k r hr hdecodes => ?_⟩
  have htake := Machine.run_take hrs (k + 1)
  have hlen := Machine.length_of_run htake
  -- the abstract listener follows the run up to here
  have hlistens := Machine.run_refines Listening.update
    (fun i s r l (hs : LoopState.Listens gzOffset gDeadzone s l) hstep =>
      listens_step (iterates_of_loop hs.ok hstep) hs)
    (show LoopState.Listens gzOffset gDeadzone (.init gzOffset gDeadzone) .init from
      ⟨LoopState.ok_init gzOffset gDeadzone, fun _ => silent_init gzOffset gDeadzone⟩) htake
  have hquiet : ∀ io ∈ (inputs.take (k + 1)).zip ((rs.take (k + 1)).map Prod.snd),
      io.2.decodes = [] := by
    rintro ⟨i, o⟩ hio
    obtain ⟨r', hr', rfl⟩ := List.mem_map.mp (List.of_mem_zip hio).2
    exact hdecodes r' hr'
  rw [foldl_listening hquiet, List.map_fst_zip (by rw [List.length_map, hlen]),
    Machine.final_take_succ hr] at hlistens
  have hsilent := hlistens.silent rfl
  obtain ⟨i, -, hiter⟩ := iterates_of_run (LoopState.ok_init gzOffset gDeadzone) hrs hr
  have hdrive := hiter.drive_eq.trans (driveCommand_silent trig hsilent)
  simp only [Prod.mk.injEq] at hdrive
  obtain ⟨hvx, hvy, hvr⟩ := hdrive
  rw [hiter.duties_eq, driveOmni_atRest_iff, hvx, hvy, hvr]
  -- what is left is the rotation, driven once a byte has been heard
  have hheard : (false || (inputs.take (k + 1)).any fun i => !i.serial.val.isEmpty) = false ↔
      ∀ i ∈ inputs.take (k + 1), i.serial.val = [] := by
    simp
  rw [← hheard, ← rotationFor_eq_zero_iff]
  change (_ ∧ _ ∧ (if (false || (inputs.take (k + 1)).any fun i => !i.serial.val.isEmpty) then
    rotationFor (driftDemand gzOffset gDeadzone (claimed (inputs.take (k + 1))).bursts)
      else 0) = 0) ↔ _
  cases (false || (inputs.take (k + 1)).any fun i => !i.serial.val.isEmpty) <;> simp

/-- One byte of noise on a robot that the sensor sees at rest: the wheels stand still. -/
theorem wheelsAtRest_run_still :
    ∃ rs, runLoop .constant [.untimed ⟨[0], by decide⟩ 10 fun _ => .ofGz 0 0]
        (.init (0 : ℚ) 0) = .ok rs ∧
      ∀ k r, rs[k]? = some r → (∀ r' ∈ rs.take (k + 1), r'.2.decodes = []) →
        WheelsAtRest r.1.duties := by
  obtain ⟨rs, hrs, hrest⟩ := wheelsAtRest_run .constant (0 : ℚ) 0
    [.untimed ⟨[0], by decide⟩ 10 fun _ => .ofGz 0 0]
  refine ⟨rs, hrs, fun k r hr hdecodes => (hrest k r hr hdecodes).mpr (.inr ?_)⟩
  rw [List.take_succ_cons, List.take_nil]
  decide +kernel

/-! ### Noise on a turning robot -/

/-- One byte of noise, in the iteration that claims ten ticks of a fast turn. -/
def noiseInput : Input := .untimed noiseRead 10 fun _ => .ofGz 0x7F 0xFF

/-- One byte that is no frame and a sensor that turns: the wheels turn back. -/
theorem wheels_turn_without_signal :
    ¬ ∀ (trig : Trig ℚ) (gzOffset gDeadzone : ℚ) (inputs : List Input)
        (rs : List (LoopState ℚ × Observation)),
      runLoop trig inputs (.init gzOffset gDeadzone) = .ok rs →
        ∀ k r, rs[k]? = some r → (∀ r' ∈ rs.take (k + 1), r'.2.decodes = []) →
          WheelsAtRest r.1.duties := by
  intro h
  have hrun : ∃ r, runLoop .constant [noiseInput] (.init 0 0) = .ok [r] ∧ r.2.decodes = [] ∧
      ¬ WheelsAtRest r.1.duties := by
    obtain ⟨rs, hrs, -⟩ := exists_runLoop .constant [noiseInput] (LoopState.ok_init 0 0)
    obtain ⟨r, rfl⟩ := List.length_eq_one_iff.mp (Machine.length_of_run hrs)
    refine ⟨r, hrs, ?_⟩
    have hcheck : (match runLoop .constant [noiseInput] (.init 0 0) with
        | .ok rs => rs.all fun r => r.2.decodes.isEmpty && !decide (WheelsAtRest r.1.duties)
        | .error _ => false) = true := by
      decide +kernel
    rw [hrs] at hcheck
    simpa using hcheck
  obtain ⟨r, hr, hdecodes, hturns⟩ := hrun
  exact hturns (h _ _ _ _ _ hr 0 r rfl (by simpa using hdecodes))
