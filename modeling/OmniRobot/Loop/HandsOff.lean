import OmniRobot.Loop.Course

/-!
# Hands off the sticks

While every frame that is decoded has its four sticks centred, the robot does not leave its place:
nothing but yaw hold drives the wheels, against what the sensor has reported since power-on, and
they stand still as long as that stays within the dead zone. The switches and all buttons may be
used.

## Main results

* `handsOff_step`: an iteration with the hands off;
* `driftDemand_of_still`: a sensor at rest;
* `handsOff_run`: what is driven in every such run.
-/

/-- The four sticks of a decoded frame are centred. -/
def SticksCentred (values : ℕ → UInt16) : Prop := ∀ c < 4, Centred (values c)

/-- A burst within the dead zone. -/
def Burst.Still {F : Type} [Field F] [LinearOrder F] (gzOffset gDeadzone : F) (buf : Burst) :
    Prop :=
  |correctedRate gzOffset buf| ≤ gDeadzone

/-- No channel has a signal before the first frame. -/
theorem sticksCentred_init : SticksCentred Crsf.RcOutput.init.values := by
  rintro c - ⟨h, -⟩
  exact absurd h (show ¬ 900 ≤ (0 : UInt16).toNat by decide)

variable {F : Type} [Field F] [LinearOrder F] [IsStrictOrderedRing F] [FloorRing F]

/-! ### Commands -/

/-- No stick command. -/
structure Pilot.AtRest (p : Pilot) : Prop where
  inRange : p.InRange
  vxCmd_eq : p.vxCmd = 0
  vyCmd_eq : p.vyCmd = 0
  vrCmd_eq : p.vrCmd = 0

/-- Centred sticks give no command, in either mode and at any speed limit. -/
theorem atRest_update {values : ℕ → UInt16} (hvalues : SticksCentred values) (circle : Bool)
    {p : Pilot} (h : p.AtRest) : (p.update values circle).AtRest := by
  have hrange := inRange_update values circle h.inRange
  have hobeys := Pilot.obeys_update values circle p
  obtain ⟨h₀, h₂₅₀⟩ := speeds_bounds _ hrange.speed_mem
  have hzero : ∀ c < 4, mapRC (values c) (p.update values circle).speed = 0 := fun c hc =>
    mapRC_of_centred (hvalues c hc) h₀ h₂₅₀
  have hturn : mapRC (values 0) 120 = 0 :=
    mapRC_of_centred (hvalues 0 (by decide)) (by decide) (by decide)
  cases hmode : (p.update values circle).mode with
  | tuPilot =>
    obtain ⟨hx, hy, hr⟩ := hobeys.tuPilot hmode
    exact ⟨hrange, hx.trans (hzero 1 (by decide)), hy.trans (hzero 0 (by decide)),
      hr.trans (hzero 3 (by decide))⟩
  | phucPilot =>
    obtain ⟨hx, hy, hr⟩ := hobeys.phucPilot hmode
    exact ⟨hrange, hx.trans (hzero 2 (by decide)), hy.trans (hzero 3 (by decide)), hr.trans hturn⟩
  | none =>
    obtain ⟨hx, hy, hr⟩ := Pilot.update_none (hobeys.mode_eq.symm.trans hmode) circle p
    exact ⟨hrange, hx.trans h.vxCmd_eq, hy.trans h.vyCmd_eq, hr.trans h.vrCmd_eq⟩

/-! ### One iteration -/

/-- No stick has been moved since power-on, and yaw hold has held its yaw. -/
structure HandsOff (gzOffset gDeadzone : F) (c : Claimed) (s : LoopState F) : Prop where
  centred : SticksCentred s.rc.values
  pilot : s.pilot.AtRest
  holds : HoldsYaw gzOffset gDeadzone c s.imu

theorem handsOff_init (gzOffset gDeadzone : F) :
    HandsOff gzOffset gDeadzone .init (.init gzOffset gDeadzone) := by
  have hstill : |(0 : ℤ)| ≤ 250 := by decide
  exact ⟨sticksCentred_init, ⟨⟨List.mem_cons_self, hstill, hstill, hstill⟩, rfl, rfl, rfl⟩,
    holds_init gzOffset gDeadzone⟩

/-- An iteration that decodes centred sticks only. -/
theorem handsOff_step {trig : Trig F} {i : Input} {s : LoopState F}
    {r : LoopState F × Observation} (h : Iterates trig i s r) {gzOffset gDeadzone : F} {c : Claimed}
    (hs : HandsOff gzOffset gDeadzone c s)
    (hdecodes : ∀ d ∈ r.2.decodes, SticksCentred d.out.values) :
    HandsOff gzOffset gDeadzone (c.step i) r.1 := by
  have hcentred : SticksCentred r.1.rc.values := by
    rw [h.rc_eq]
    cases hlast : r.2.decodes.getLast? with
    | none => exact hs.centred
    | some d => exact hdecodes d (List.mem_of_getLast? hlast)
  have hpilot : r.1.pilot.AtRest := by
    by_cases hserial : i.serial.val = []
    · rw [(h.silent hserial).2.1]
      exact hs.pilot
    · rw [(h.heard hserial).1]
      exact atRest_update hcentred _ hs.pilot
  refine ⟨hcentred, hpilot, ?_⟩
  rw [h.imu_eq, hpilot.vrCmd_eq]
  exact holds_step i hs.holds

/-- What is driven with the hands off: the rotation of yaw hold, in a pilot mode. -/
theorem driveCommand_handsOff (trig : Trig F) {gzOffset gDeadzone : F} {c : Claimed}
    {s : LoopState F} (hs : HandsOff gzOffset gDeadzone c s) :
    driveCommand trig s = (0, 0, if s.pilot.mode = .none then 0 else
      rotationFor (driftDemand gzOffset gDeadzone c.bursts)) := by
  unfold driveCommand
  dsimp only
  rw [hs.pilot.vxCmd_eq, hs.pilot.vyCmd_eq, hs.holds.vrFinal_eq]
  by_cases hmode : s.pilot.mode = .none
  · rw [if_neg (not_not_intro hmode), if_pos hmode]
  · rw [if_pos hmode, if_neg hmode]
    -- a stick at 0 stays at 0 when it is rotated
    cases s.pilot.headlessMode <;> simp

/-! ### A sensor at rest -/

section Still

variable {gzOffset gDeadzone : F} {bufs : List Burst}
  (h : ∀ buf ∈ bufs, buf.Still gzOffset gDeadzone)

include h

/-- Bursts within the dead zone leave no heading error. -/
theorem yawErrors_of_still {e yaw : F} (he : e ∈ yawErrors gzOffset gDeadzone yaw yaw bufs) :
    e = 0 := by
  induction bufs with
  | nil => cases he
  | cons buf bufs ih =>
    rw [List.forall_mem_cons] at h
    have hstep : integrateYaw gDeadzone (correctedRate gzOffset buf) yaw = yaw :=
      if_neg (not_lt.mpr h.1)
    rw [yawErrors, hstep, sub_self, List.mem_cons] at he
    rcases he with rfl | he
    · exact wrapAngle_of_mem (by norm_num) (by norm_num)
    · exact ih h.2 he

/-- Yaw hold demands no rotation. -/
theorem driftDemand_of_still : driftDemand gzOffset gDeadzone bufs = 0 :=
  Control.lastDemand_zero yawGains_bound_nonneg fun _ he => yawErrors_of_still h he

end Still

/-! ### Runs -/

/-- As long as only centred sticks are decoded. -/
theorem handsOff_iterations {trig : Trig F} {gzOffset gDeadzone : F} {inputs : List Input}
    {rs : List (LoopState F × Observation)}
    (hrs : runLoop trig inputs (.init gzOffset gDeadzone) = .ok rs) {k : ℕ} (hk : k ≤ rs.length)
    (hdecodes : ∀ r ∈ rs.take k, ∀ d ∈ r.2.decodes, SticksCentred d.out.values) :
    HandsOff gzOffset gDeadzone (claimed (inputs.take k))
      (Machine.final (.init gzOffset gDeadzone) (rs.take k)) := by
  induction k with
  | zero => exact handsOff_init gzOffset gDeadzone
  | succ k ih =>
    have hr : rs[k]? = some rs[k] := List.getElem?_eq_getElem hk
    obtain ⟨i, hi, hiter⟩ := iterates_of_run (LoopState.ok_init gzOffset gDeadzone) hrs hr
    rw [List.take_add_one, hr, List.forall_mem_append] at hdecodes
    rw [claimed_take_succ hi, Machine.final_take_succ hr]
    exact handsOff_step hiter (ih (Nat.le_of_succ_le hk) hdecodes.1)
      (hdecodes.2 _ (List.mem_singleton.mpr rfl))

/-- Hands off. In every run from power-on, as long as every frame that is decoded has its four
sticks centred, `drive_omni` gets no translation, and in a pilot mode the rotation that yaw hold
demands against the yaw measured since power-on, whatever the switches and the buttons do. As long
as no burst that is read exceeds the dead zone either, the drive motors stand still. -/
theorem handsOff_run (trig : Trig F) (gzOffset gDeadzone : F) (inputs : List Input) :
    ∃ rs, runLoop trig inputs (.init gzOffset gDeadzone) = .ok rs ∧
      ∀ (k : ℕ) (r : LoopState F × Observation), rs[k]? = some r →
        (∀ r' ∈ rs.take (k + 1), ∀ d ∈ r'.2.decodes, SticksCentred d.out.values) →
        (r.2.vx = 0 ∧ r.2.vy = 0 ∧ r.2.vr = if r.1.pilot.mode = .none then 0 else
          rotationFor (driftDemand gzOffset gDeadzone
            (claimed (inputs.take (k + 1))).bursts)) ∧
        ((∀ buf ∈ (claimed (inputs.take (k + 1))).bursts, buf.Still gzOffset gDeadzone) →
          WheelsAtRest r.1.duties) := by
  have hinit := LoopState.ok_init gzOffset gDeadzone
  obtain ⟨rs, hrs, -⟩ := exists_runLoop trig inputs hinit
  refine ⟨rs, hrs, fun k r hr hdecodes => ?_⟩
  have hk := (List.getElem?_eq_some_iff.mp hr).1
  obtain ⟨i, -, hiter⟩ := iterates_of_run hinit hrs hr
  have hstate := handsOff_iterations hrs hk hdecodes
  rw [Machine.final_take_succ hr] at hstate
  have hdrive := hiter.drive_eq.trans (driveCommand_handsOff trig hstate)
  simp only [Prod.mk.injEq] at hdrive
  refine ⟨hdrive, fun hstill => ?_⟩
  rw [hiter.duties_eq, driveOmni_atRest_iff]
  refine ⟨hdrive.1, hdrive.2.1, ?_⟩
  rw [hdrive.2.2, driftDemand_of_still hstill]
  split_ifs
  · rfl
  · rw [rotationFor_eq_zero_iff, abs_zero]
    exact one_pos

/-- Two iterations that read a frame and the front of another, with a sensor at rest. -/
def handsOffInputs : List Input :=
  [.untimed (centreRead 0) 10 fun _ => .ofGz 0 0, .untimed (centreRead 25) 10 fun _ => .ofGz 0 0]

theorem handsOff_run_centre :
    ∃ rs, runLoop .constant handsOffInputs (.init (0 : ℚ) 0) = .ok rs ∧
      ∀ r, rs[1]? = some r → WheelsAtRest r.1.duties := by
  obtain ⟨rs, hrs, hrun⟩ := handsOff_run .constant (0 : ℚ) 0 handsOffInputs
  refine ⟨rs, hrs, fun r hr => (hrun 1 r hr fun r' hr' d hd c hc => ?_).2 ?_⟩
  · have hcheck : (match runLoop .constant handsOffInputs (.init (0 : ℚ) 0) with
        | .ok rs => rs.all fun r => r.2.decodes.all fun d =>
            (List.range 4).all fun c => decide (Centred (d.out.values c))
        | .error _ => false) = true := by
      decide +kernel
    rw [hrs] at hcheck
    have hvalues := List.all_eq_true.mp (List.all_eq_true.mp hcheck r' (List.mem_of_mem_take hr'))
    exact of_decide_eq_true (List.all_eq_true.mp (hvalues d hd) c (List.mem_range.mpr hc))
  · have hbursts : (claimed (handsOffInputs.take 2)).bursts = List.replicate 20 (.ofGz 0 0) := rfl
    intro buf hbuf
    change |correctedRate (0 : ℚ) buf| ≤ 0
    rw [hbursts] at hbuf
    rw [List.eq_of_mem_replicate hbuf]
    decide +kernel
