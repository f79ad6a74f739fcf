import OmniRobot.Loop.Spec

/-!
# What yaw hold remembers

Two runs on the same inputs, from states that differ in the PID memory alone, can only ever differ
in that memory, in the rotation computed from it and in what the rotation drives. An iteration in
which the pilot turns resets the integral, and a tick of yaw hold overwrites the last error. Nothing
else clears them: not the mode `none`, and the last error is not part of the reset. `Stale` follows
where a difference can have got to.

## Main results

* `imuStage_agree`: one IMU stage, from both memories;
* `loop_erase`: the rest of an iteration does not depend on them;
* `driven_eq_of_forgotten`: as long as no driven rotation was computed from memory that had not
  been overwritten, both runs drive the same;
* `yawHold_remembers`: one that was, with mode `none` between wind-up and hold.
-/

open Control (Memory lastDemand)

/-! ### Disengaged states -/

section

variable {F : Type}

/-- Yaw hold does not steer the wheels: the pilot turns, or has selected no mode. -/
def LoopState.Disengaged (s : LoopState F) : Prop := 20 < |s.pilot.vrCmd| ∨ s.pilot.mode = .none

instance (s : LoopState F) : Decidable s.Disengaged :=
  inferInstanceAs (Decidable (20 < |s.pilot.vrCmd| ∨ s.pilot.mode = .none))

/-- The states agree on every variable but the PID memory. -/
def LoopState.AgreeButMemory (s₁ s₂ : LoopState F) : Prop :=
  s₂ = { s₁ with imu := { s₁.imu with
    pidIntegral := s₂.imu.pidIntegral, pidPrevErr := s₂.imu.pidPrevErr } }

/-- The arguments of `drive_omni`. -/
def Observation.driven (o : Observation) : ℤ × ℤ × ℤ := (o.vx, o.vy, o.vr)

/-- Where a difference in the PID memory can have got to: whether the integrals, the last errors
and the rotations of the two runs may differ. -/
structure Stale where
  pending : UInt32
  integral : Bool
  prevErr : Bool
  rotation : Bool

/-- One more iteration, with the command `vrCmd` in it. A turning pilot resets the integral and
drives the stick command. A tick of yaw hold uses the integral, and the last error unless it has
just been set by the tick before. -/
def Stale.iterate (t : Stale) (i : Input) (vrCmd : ℤ) : Stale :=
  let bursts := (i.claim t.pending).1
  let t := { t with pending := (i.claim t.pending).2 }
  if 20 < |vrCmd| then { t with integral := false, rotation := t.rotation && bursts.isEmpty }
  else
    match bursts with
    | [] => t
    | [_] => { t with prevErr := false, rotation := t.integral || t.prevErr }
    | _ :: _ :: _ => { t with prevErr := false, rotation := t.integral }

/-- The first `k` iterations of a run. -/
def Stale.after (t : Stale) (inputs : List Input) (rs : List (LoopState F × Observation)) (k : ℕ) :
    Stale :=
  ((inputs.take k).zip (rs.take k)).foldl (fun t ir => t.iterate ir.1 ir.2.1.pilot.vrCmd) t

/-- What two states that agree but for the memory start from. -/
def Stale.between [DecidableEq F] (s₁ s₂ : LoopState F) : Stale where
  pending := s₁.imu.imuTickPending
  integral := s₁.imu.pidIntegral ≠ s₂.imu.pidIntegral
  prevErr := s₁.imu.pidPrevErr ≠ s₂.imu.pidPrevErr
  rotation := false

end

variable {F : Type} [Field F] [LinearOrder F] [IsStrictOrderedRing F] [FloorRing F]

/-- A state that ends a disengaged iteration of a run from power-on. -/
def EndsDisengaged (trig : Trig F) (gzOffset gDeadzone : F) (s : LoopState F) : Prop :=
  ∃ past rs o, runLoop trig past (.init gzOffset gDeadzone) = .ok rs ∧
    rs.getLast? = some (s, o) ∧ s.Disengaged

/-! ### The IMU stage -/

/-- The IMU variables without the PID memory and the rotation. -/
def Imu.erase (m : Imu F) : Imu F := { m with pidIntegral := 0, pidPrevErr := 0, vrFinal := 0 }

/-- Two runs' IMU variables, with `t` for what may differ. -/
structure Imu.Agree (t : Stale) (m₁ m₂ : Imu F) : Prop where
  erase_eq : m₁.erase = m₂.erase
  pending_eq : t.pending = m₁.imuTickPending
  integral_eq : t.integral = false → m₁.pidIntegral = m₂.pidIntegral
  prevErr_eq : t.prevErr = false → m₁.pidPrevErr = m₂.pidPrevErr
  rotation_eq : t.rotation = false → m₁.vrFinal = m₂.vrFinal

omit [LinearOrder F] [IsStrictOrderedRing F] [FloorRing F] in
theorem Imu.eq_of_erase_eq {m₁ m₂ : Imu F} (h : m₁.erase = m₂.erase) :
    m₁.yawAngle = m₂.yawAngle ∧ m₁.yawTarget = m₂.yawTarget ∧ m₁.gImu = m₂.gImu ∧
      m₁.gzOffset = m₂.gzOffset ∧ m₁.gDeadzone = m₂.gDeadzone ∧
      m₁.imuTickPending = m₂.imuTickPending := by
  simp only [Imu.erase, Imu.mk.injEq, true_and] at h
  obtain ⟨h₁, h₂, h₃, h₄, h₅, h₆, -⟩ := h
  exact ⟨h₁, h₂, h₃, h₄, h₅, h₆⟩

theorem imuTick_erase (holdEnabled : Bool) (target : F) (vrCmd : ℤ) (m : Imu F) (buf : Burst) :
    (imuTick holdEnabled target vrCmd m buf).erase =
      (imuTick holdEnabled target vrCmd m.erase buf).erase := by
  cases holdEnabled <;> rfl

theorem ticks_erase (holdEnabled : Bool) (target : F) (vrCmd : ℤ) (m : Imu F) (bufs : List Burst) :
    (bufs.foldl (imuTick holdEnabled target vrCmd) m).erase =
      (bufs.foldl (imuTick holdEnabled target vrCmd) m.erase).erase := by
  induction bufs generalizing m with
  | nil => rfl
  | cons buf bufs ih =>
    rw [List.foldl_cons, List.foldl_cons, ih, imuTick_erase, ← ih]

/-- The sensor side of the IMU stage does not depend on the memory. -/
theorem imuStage_erase (i : Input) (vrCmd : ℤ) (m : Imu F) :
    (imuStage i vrCmd m).erase = (imuStage i vrCmd m.erase).erase := by
  rw [imuStage_eq, imuStage_eq, ticks_erase, ticks_erase _ _ _ { switchYawHold vrCmd m.erase with
    imuTickPending := (i.claim m.erase.imuTickPending).2 }]
  unfold switchYawHold
  split_ifs <;> rfl

/-- Yaw hold runs the memory through the errors of the bursts claimed. -/
theorem imuStage_hold_memory (i : Input) {vrCmd : ℤ} (hturn : ¬ 20 < |vrCmd|) (m : Imu F) :
    (imuStage i vrCmd m).memory =
        m.memory.after yawGains (m.errors m.yawTarget (i.claim m.imuTickPending).1) ∧
      (imuStage i vrCmd m).vrFinal =
        if (i.claim m.imuTickPending).1 = [] then m.vrFinal
        else rotationFor (lastDemand yawGains m.memory
          (m.errors m.yawTarget (i.claim m.imuTickPending).1)) :=
  ⟨(imuStage_hold i hturn m).memory_eq, (imuStage_hold i hturn m).vrFinal_eq⟩

omit [LinearOrder F] [IsStrictOrderedRing F] [FloorRing F] in
theorem Imu.Agree.memory {t : Stale} {m₁ m₂ : Imu F} (h : Imu.Agree t m₁ m₂) :
    Memory.Agree t.integral t.prevErr m₁.memory m₂.memory := ⟨h.integral_eq, h.prevErr_eq⟩

/-- Both stages, given what they do to the memory and to the rotation. -/
theorem Imu.Agree.imuStage {i : Input} {vrCmd : ℤ} {t t' : Stale} {m₁ m₂ : Imu F}
    (h : Imu.Agree t m₁ m₂) (hpending : t'.pending = (i.claim t.pending).2)
    (hmemory : Memory.Agree t'.integral t'.prevErr (imuStage i vrCmd m₁).memory
      (imuStage i vrCmd m₂).memory)
    (hrotation : t'.rotation = false →
      (imuStage i vrCmd m₁).vrFinal = (imuStage i vrCmd m₂).vrFinal) :
    Imu.Agree t' (imuStage i vrCmd m₁) (imuStage i vrCmd m₂) := by
  refine ⟨?_, ?_, hmemory.integral_eq, hmemory.prevErr_eq, hrotation⟩
  · rw [imuStage_erase, h.erase_eq, ← imuStage_erase]
  · rw [hpending, imuStage_imuTickPending, h.pending_eq]

/-- While the pilot turns, both integrals are reset and both rotations are the stick's. -/
theorem imuStage_agree_stick (i : Input) {vrCmd : ℤ} (hturn : 20 < |vrCmd|) {t : Stale}
    {m₁ m₂ : Imu F} (h : Imu.Agree t m₁ m₂) :
    Imu.Agree (t.iterate i vrCmd) (imuStage i vrCmd m₁) (imuStage i vrCmd m₂) := by
  obtain ⟨hmem₁, hvr₁⟩ := imuStage_stick i hturn m₁
  obtain ⟨hmem₂, hvr₂⟩ := imuStage_stick i hturn m₂
  obtain ⟨-, -, -, -, -, hpending⟩ := Imu.eq_of_erase_eq h.erase_eq
  rw [Stale.iterate, if_pos hturn]
  apply h.imuStage rfl
  · rw [hmem₁, hmem₂]
    exact ⟨fun _ => rfl, h.prevErr_eq⟩
  · intro hr
    rw [hvr₁, hvr₂, ← hpending, ← h.pending_eq]
    -- without a tick the rotation stays as it was
    split_ifs with hnil
    · exact h.rotation_eq (by simpa [hnil] using hr)
    · rfl

/-- Otherwise both hold on the same errors. -/
theorem imuStage_agree_hold (i : Input) {vrCmd : ℤ} (hturn : ¬ 20 < |vrCmd|) {t : Stale}
    {m₁ m₂ : Imu F} (h : Imu.Agree t m₁ m₂) :
    Imu.Agree (t.iterate i vrCmd) (imuStage i vrCmd m₁) (imuStage i vrCmd m₂) := by
  obtain ⟨hmem₁, hvr₁⟩ := imuStage_hold_memory i hturn m₁
  obtain ⟨hmem₂, hvr₂⟩ := imuStage_hold_memory i hturn m₂
  obtain ⟨-, htarget, hgImu, hoff, hdz, hpending⟩ := Imu.eq_of_erase_eq h.erase_eq
  have herrors : m₂.errors m₂.yawTarget = m₁.errors m₁.yawTarget := by
    funext bufs
    rw [Imu.errors, Imu.errors, htarget, hgImu, hoff, hdz]
  rw [herrors, ← hpending, ← h.pending_eq] at hmem₂ hvr₂
  rw [← h.pending_eq] at hmem₁ hvr₁
  have hafter := h.memory.after (g := yawGains) (m₁.errors m₁.yawTarget (i.claim t.pending).1)
  rw [← hmem₁, ← hmem₂] at hafter
  rw [Stale.iterate, if_neg hturn]
  -- the tracker counts ticks, the controller errors
  generalize hbufs : (i.claim t.pending).1 = bufs at hvr₁ hvr₂ hafter ⊢
  have hlen : (m₁.errors m₁.yawTarget bufs).length = bufs.length := length_yawErrors _ _ _ _ _
  generalize m₁.errors m₁.yawTarget bufs = errs at hvr₁ hvr₂ hafter hlen
  rcases bufs with - | ⟨buf, - | ⟨buf', bufs⟩⟩
  · -- no tick, so nothing changes
    obtain rfl : errs = [] := List.length_eq_zero_iff.mp hlen
    apply h.imuStage rfl
    · simpa using hafter
    · intro hr
      rw [hvr₁, hvr₂, if_pos rfl, if_pos rfl]
      exact h.rotation_eq hr
  · -- the one tick uses both the integral and the last error
    obtain ⟨err, rfl⟩ := List.length_eq_one_iff.mp hlen
    apply h.imuStage rfl
    · simpa using hafter
    · intro hr
      obtain ⟨hi, hp⟩ := Bool.or_eq_false_iff.mp hr
      have hfresh := h.memory
      rw [hi] at hfresh
      rw [hvr₁, hvr₂, if_neg (by simp), if_neg (by simp), hfresh.lastDemand_eq fun _ => hp]
  · -- the second tick takes the last error from the first, and only the integral is left
    have hne : errs.isEmpty = false := by
      rw [List.isEmpty_eq_false_iff, ← List.length_pos_iff, hlen]
      exact Nat.succ_pos _
    apply h.imuStage rfl
    · simpa [hne] using hafter
    · intro hi
      have hfresh := h.memory
      rw [show t.integral = false from hi] at hfresh
      rw [hvr₁, hvr₂, if_neg (by simp), if_neg (by simp),
        hfresh.lastDemand_eq fun hone => absurd (hlen.symm.trans hone) (by simp)]

/-- One IMU stage, from both memories. -/
theorem imuStage_agree (i : Input) (vrCmd : ℤ) {t : Stale} {m₁ m₂ : Imu F} (h : Imu.Agree t m₁ m₂) :
    Imu.Agree (t.iterate i vrCmd) (imuStage i vrCmd m₁) (imuStage i vrCmd m₂) := by
  by_cases hturn : 20 < |vrCmd|
  · exact imuStage_agree_stick i hturn h
  · exact imuStage_agree_hold i hturn h

/-! ### One iteration -/

/-- The variables without the PID memory, the rotation, and what nothing else reads: the duties
and the monitor. -/
def LoopState.erase (s : LoopState F) : LoopState F :=
  { s with imu := s.imu.erase, duties := .init, monitor := ⟨0, 0, 0, 0⟩ }

theorem steer_erase (i : Input) (s : LoopState F) :
    (steer i s).erase = (steer i s.erase).erase := by
  have himu := imuStage_erase i s.pilot.vrCmd s.imu
  have hyaw := (Imu.eq_of_erase_eq himu).1
  rw [steer_eq, steer_eq i s.erase]
  simp only [LoopState.erase]
  rw [himu, hyaw]
  rfl

omit [LinearOrder F] [IsStrictOrderedRing F] [FloorRing F] in
/-- The RC stage reads none of the variables erased. -/
theorem receive_erase {i : Input} {s t : LoopState F} {ds : List Crsf.Decode}
    (h : receive i (prepare i s) = .ok (t, ds)) :
    ∃ t', receive i (prepare i s.erase) = .ok (t', ds) ∧ t'.erase = t.erase := by
  unfold receive at h ⊢
  split_ifs at h ⊢ with hserial
  · cases h
    exact ⟨_, rfl, rfl⟩
  · have hparse : Crsf.crsfParse rcInputMaxChannels i.serial.val (prepare i s.erase).parser
        (prepare i s.erase).rc =
        Crsf.crsfParse rcInputMaxChannels i.serial.val (prepare i s).parser (prepare i s).rc := rfl
    rw [hparse]
    cases hp : Crsf.crsfParse rcInputMaxChannels i.serial.val (prepare i s).parser
        (prepare i s).rc with
    | error e =>
      rw [hp] at h
      cases h
    | ok p =>
      rw [hp] at h
      cases h
      exact ⟨_, rfl, rfl⟩

theorem loop_erase {trig : Trig F} {i : Input} {s : LoopState F} {r : LoopState F × Observation}
    (h : loop trig i s = .ok r) :
    ∃ r', loop trig i s.erase = .ok r' ∧ r'.1.erase = r.1.erase := by
  cases hreceive : receive i (prepare i s) with
  | error e =>
    rw [loop, hreceive] at h
    cases h
  | ok td =>
    obtain ⟨t, ds⟩ := td
    obtain ⟨t', ht', herase⟩ := receive_erase hreceive
    rw [loop, hreceive, Crsf.ok_bind] at h
    cases h
    refine ⟨_, by rw [loop, ht', Crsf.ok_bind]; rfl, ?_⟩
    have hsteer : (steer i t').erase = (steer i t).erase := by
      rw [steer_erase, herase, ← steer_erase]
    exact hsteer

/-- Nor does the rest of an iteration. -/
theorem loop_erase_congr {trig : Trig F} {i : Input} {s₁ s₂ : LoopState F}
    {r₁ r₂ : LoopState F × Observation} (h : s₁.erase = s₂.erase) (h₁ : loop trig i s₁ = .ok r₁)
    (h₂ : loop trig i s₂ = .ok r₂) : r₁.1.erase = r₂.1.erase := by
  obtain ⟨r₁', hr₁, he₁⟩ := loop_erase h₁
  obtain ⟨r₂', hr₂, he₂⟩ := loop_erase h₂
  rw [h] at hr₁
  obtain rfl : r₁' = r₂' := Except.ok.inj (hr₁.symm.trans hr₂)
  exact he₁.symm.trans he₂

/-- Two runs, with `t` for what may differ. -/
structure LoopState.Agree (t : Stale) (s₁ s₂ : LoopState F) : Prop where
  ok₁ : s₁.Ok
  ok₂ : s₂.Ok
  erase_eq : s₁.erase = s₂.erase
  imu : Imu.Agree t s₁.imu s₂.imu

/-- One iteration of both runs. -/
theorem agree_step {trig : Trig F} {i : Input} {t : Stale} {s₁ s₂ : LoopState F}
    {r₁ r₂ : LoopState F × Observation} (h : LoopState.Agree t s₁ s₂)
    (h₁ : loop trig i s₁ = .ok r₁) (h₂ : loop trig i s₂ = .ok r₂) :
    LoopState.Agree (t.iterate i r₁.1.pilot.vrCmd) r₁.1 r₂.1 := by
  have hiter₁ := iterates_of_loop h.ok₁ h₁
  have hiter₂ := iterates_of_loop h.ok₂ h₂
  have herase := loop_erase_congr h.erase_eq h₁ h₂
  have hpilot : r₁.1.pilot = r₂.1.pilot := (LoopState.mk.inj herase).2.2.1
  refine ⟨hiter₁.ok, hiter₂.ok, herase, ?_⟩
  rw [hiter₁.imu_eq, hiter₂.imu_eq, ← hpilot]
  exact imuStage_agree i _ h.imu

/-- Both drive the same, unless the rotation may differ and a mode is selected. -/
theorem driveCommand_agree (trig : Trig F) {t : Stale} {s₁ s₂ : LoopState F}
    (h : LoopState.Agree t s₁ s₂) (hrotation : s₁.pilot.mode = .none ∨ t.rotation = false) :
    driveCommand trig s₁ = driveCommand trig s₂ := by
  obtain ⟨-, -, hpilot, -, href, -⟩ := LoopState.mk.inj h.erase_eq
  have hyaw := (Imu.eq_of_erase_eq h.imu.erase_eq).1
  unfold driveCommand
  dsimp only
  rw [← hpilot]
  rcases hrotation with hmode | hfresh
  · -- mode `none` drives nothing
    rw [if_neg (not_not_intro hmode), if_neg (not_not_intro hmode)]
  · rw [← h.imu.rotation_eq hfresh, hyaw]
    have href' : s₁.headlessYawRef = s₂.headlessYawRef := href
    rw [href']

/-! ### Runs -/

theorem ok_of_endsDisengaged {trig : Trig F} {gzOffset gDeadzone : F} {s : LoopState F}
    (h : EndsDisengaged trig gzOffset gDeadzone s) : s.Ok := by
  obtain ⟨past, rs, o, hrun, hlast, -⟩ := h
  obtain ⟨rs', hrun', hok⟩ := exists_runLoop trig past (LoopState.ok_init gzOffset gDeadzone)
  obtain rfl : rs' = rs := Except.ok.inj (hrun'.symm.trans hrun)
  rwa [Machine.final, hlast] at hok

omit [IsStrictOrderedRing F] [FloorRing F] in
theorem agree_between {s₁ s₂ : LoopState F} (h₁ : s₁.Ok) (h₂ : s₂.Ok)
    (h : s₁.AgreeButMemory s₂) : LoopState.Agree (.between s₁ s₂) s₁ s₂ := by
  refine ⟨h₁, h₂, ?_, ?_, rfl, fun hi => ?_, fun hp => ?_, fun _ => ?_⟩
  · rw [h]
    rfl
  · rw [h]
    rfl
  · simpa [Stale.between] using hi
  · simpa [Stale.between] using hp
  · rw [h]

/-- When yaw hold has forgotten. From two states that end disengaged iterations and agree but for
the PID memory, both runs drive the same in every iteration with mode `none`, and in every one for
whose rotation no memory that may still differ has been used. -/
theorem driven_eq_of_forgotten (trig : Trig F) (gzOffset gDeadzone : F) {s₁ s₂ : LoopState F}
    (h₁ : EndsDisengaged trig gzOffset gDeadzone s₁)
    (h₂ : EndsDisengaged trig gzOffset gDeadzone s₂) (hagree : s₁.AgreeButMemory s₂)
    (inputs : List Input) :
    ∃ rs₁ rs₂, runLoop trig inputs s₁ = .ok rs₁ ∧ runLoop trig inputs s₂ = .ok rs₂ ∧
      ∀ k r₁ r₂, rs₁[k]? = some r₁ → rs₂[k]? = some r₂ →
        r₁.1.pilot.mode = .none ∨
          ((Stale.between s₁ s₂).after inputs rs₁ (k + 1)).rotation = false →
        r₁.2.driven = r₂.2.driven := by
  have hok₁ := ok_of_endsDisengaged h₁
  have hok₂ := ok_of_endsDisengaged h₂
  obtain ⟨rs₁, hrs₁, -⟩ := exists_runLoop trig inputs hok₁
  obtain ⟨rs₂, hrs₂, -⟩ := exists_runLoop trig inputs hok₂
  refine ⟨rs₁, rs₂, hrs₁, hrs₂, fun k r₁ r₂ hr₁ hr₂ hfresh => ?_⟩
  -- both runs up to place `k`, in lockstep
  have hlock := Machine.run_lockstep (R := LoopState.Agree)
    (fun t i r => t.iterate i r.1.pilot.vrCmd)
    (fun _ _ _ _ _ _ h hstep₁ hstep₂ => agree_step h hstep₁ hstep₂)
    (agree_between hok₁ hok₂ hagree)
    (Machine.run_take hrs₁ (k + 1)) (Machine.run_take hrs₂ (k + 1))
  rw [Machine.final_take_succ hr₁, Machine.final_take_succ hr₂] at hlock
  obtain ⟨i₁, -, hiter₁⟩ := iterates_of_run hok₁ hrs₁ hr₁
  obtain ⟨i₂, -, hiter₂⟩ := iterates_of_run hok₂ hrs₂ hr₂
  calc r₁.2.driven = driveCommand trig r₁.1 := hiter₁.drive_eq
    _ = driveCommand trig r₂.1 := driveCommand_agree trig hlock hfresh
    _ = r₂.2.driven := hiter₂.drive_eq.symm

/-! ### A sway before the first byte -/

/-- What an iteration leaves without a byte and a mode. -/
def quiet (i : Input) (s : LoopState F) : LoopState F :=
  { s with
    servos := (s.servos.notify i.buttons).write i.nowUsServo
    imu := imuStage i s.pilot.vrCmd s.imu
    monitor := (steer i (prepare i s)).monitor
    headlessPrev := false
    duties := driveOmni (notifyMotor i.buttons s.duties) 0 0 0 }

theorem loop_of_quiet (trig : Trig F) {i : Input} {s : LoopState F} (hserial : i.serial.val = [])
    (hmode : s.pilot.mode = .none) (hheadless : s.pilot.headlessMode = false) :
    loop trig i s = .ok (quiet i s, ⟨0, 0, 0, []⟩) := by
  have hreceive : receive i (prepare i s) = .ok (prepare i s, []) := if_pos hserial
  have hsteer : { steer i (prepare i s) with
      duties := driveOmni (notifyMotor i.buttons s.duties) 0 0 0 } = quiet i s := by
    have hprepare : (prepare i s).pilot.headlessMode = false := hheadless
    rw [steer_eq, hprepare, quiet]
    rfl
  have hmode' : (steer i (prepare i s)).pilot.mode = .none := by
    rw [steer_eq]
    exact hmode
  have hduties : (steer i (prepare i s)).duties = notifyMotor i.buttons s.duties := by
    rw [steer_eq]
    rfl
  have hdrive : driveCommand trig (steer i (prepare i s)) = (0, 0, 0) :=
    if_neg (not_not_intro hmode')
  rw [loop, hreceive, Crsf.ok_bind]
  dsimp only
  rw [hdrive, hduties, hsteer]
  rfl

theorem agreeButMemory_quiet {i₁ i₂ : Input} {s : LoopState F}
    (hbuttons : i₁.buttons = i₂.buttons) (hnow : i₁.nowUsServo = i₂.nowUsServo)
    (himu : (quiet i₂ s).imu = { (quiet i₁ s).imu with
      pidIntegral := (quiet i₂ s).imu.pidIntegral, pidPrevErr := (quiet i₂ s).imu.pidPrevErr })
    (hmonitor : (quiet i₁ s).monitor = (quiet i₂ s).monitor) :
    (quiet i₁ s).AgreeButMemory (quiet i₂ s) := by
  rw [LoopState.AgreeButMemory, ← himu]
  unfold quiet at hmonitor ⊢
  rw [hbuttons, hnow, hmonitor]

/-- A quiet iteration: four ticks of one turn, four of another, two at rest. -/
def swayInput (there back : Burst) : Input :=
  .untimed ⟨[], by decide⟩ 10 fun j => if j < 4 then there else if j < 8 then back else .ofGz 0 0

/-- What a sway from power-on leaves. -/
def swayed (there back : Burst) : LoopState ℚ := quiet (swayInput there back) (.init 0 0)

theorem endsDisengaged_swayed (trig : Trig ℚ) (there back : Burst) :
    EndsDisengaged trig 0 0 (swayed there back) :=
  ⟨[swayInput there back], _, ⟨0, 0, 0, []⟩, Machine.run_cons_eq_ok.mpr
    ⟨_, [], loop_of_quiet trig rfl rfl rfl, rfl, rfl⟩, rfl, .inr rfl⟩

/-- A sway to the left and back, as fast as the sensor can tell. -/
def swayedLeft : LoopState ℚ := swayed (.ofGz 0x7F 0xFF) (.ofGz 0x80 0x01)

/-- The same to the right. -/
def swayedRight : LoopState ℚ := swayed (.ofGz 0x80 0x01) (.ofGz 0x7F 0xFF)

/-- To sway there and back again leaves the yaw, but not the integral. -/
theorem agreeButMemory_swayed : swayedLeft.AgreeButMemory swayedRight :=
  agreeButMemory_quiet rfl rfl (by decide +kernel) (by decide +kernel)

/-- One byte of noise, in an iteration that claims one tick. -/
def touchInput : Input := .untimed noiseRead 1 fun _ => .ofGz 0x7F 0xFF

/-- The sway is remembered: the first byte of noise selects a mode, and in the same iteration one
tick drives the two integrals to different rotations. -/
theorem yawHold_remembers :
    ¬ ∀ (trig : Trig ℚ) (gzOffset gDeadzone : ℚ) (s₁ s₂ : LoopState ℚ),
      EndsDisengaged trig gzOffset gDeadzone s₁ → EndsDisengaged trig gzOffset gDeadzone s₂ →
        s₁.AgreeButMemory s₂ → ∀ inputs rs₁ rs₂, runLoop trig inputs s₁ = .ok rs₁ →
          runLoop trig inputs s₂ = .ok rs₂ → (∃ r ∈ rs₁, ¬ r.1.Disengaged) →
            rs₁.map (·.2.driven) = rs₂.map (·.2.driven) := by
  intro h
  have hforgets := h .constant 0 0 swayedLeft swayedRight (endsDisengaged_swayed _ _ _)
    (endsDisengaged_swayed _ _ _) agreeButMemory_swayed [touchInput]
  have hcheck : (match runLoop .constant [touchInput] swayedLeft,
        runLoop .constant [touchInput] swayedRight with
      | .ok rs₁, .ok rs₂ => rs₁.any (fun r => !decide r.1.Disengaged) &&
          decide (rs₁.map (·.2.driven) ≠ rs₂.map (·.2.driven))
      | _, _ => false) = true := by
    decide +kernel
  split at hcheck
  next rs₁ rs₂ hrs₁ hrs₂ =>
    rw [Bool.and_eq_true, List.any_eq_true, decide_eq_true_eq] at hcheck
    obtain ⟨⟨r, hr, hengaged⟩, hne⟩ := hcheck
    exact hne (hforgets rs₁ rs₂ hrs₁ hrs₂ ⟨r, hr, by simpa using hengaged⟩)
  · cases hcheck

/-- A frame that turns, and one with the stick at rest, each cut before its last byte. The hold
after them claims two ticks. -/
def turnThenHold : List Input :=
  [.untimed (frontRead 65) 0 fun _ => .ofGz 0 0,
    .untimed (backRead 65) 1 fun _ => .ofGz 0x7F 0xFF,
    .untimed (frontRead 68) 0 fun _ => .ofGz 0 0,
    .untimed (backRead 68) 2 fun _ => .ofGz 0x7F 0xFF]

/-- Once the pilot has turned, the sway is forgotten. -/
theorem driven_eq_of_forgotten_swayed :
    ∃ rs₁ rs₂ : List (LoopState ℚ × Observation),
      runLoop .constant turnThenHold swayedLeft = .ok rs₁ ∧
      runLoop .constant turnThenHold swayedRight = .ok rs₂ ∧
      ∀ (k : ℕ) (r₁ r₂ : LoopState ℚ × Observation), rs₁[k]? = some r₁ →
        rs₂[k]? = some r₂ → r₁.2.driven = r₂.2.driven := by
  have hleft : EndsDisengaged .constant 0 0 swayedLeft := endsDisengaged_swayed _ _ _
  have hright : EndsDisengaged .constant 0 0 swayedRight := endsDisengaged_swayed _ _ _
  obtain ⟨rs₁, rs₂, hrs₁, hrs₂, hdriven⟩ :=
    driven_eq_of_forgotten .constant 0 0 hleft hright agreeButMemory_swayed turnThenHold
  refine ⟨rs₁, rs₂, hrs₁, hrs₂, fun k r₁ r₂ hr₁ hr₂ => hdriven k r₁ r₂ hr₁ hr₂ (.inr ?_)⟩
  have hcheck : (match runLoop .constant turnThenHold swayedLeft with
      | .ok rs₁ => (List.range 4).all fun k =>
          !((Stale.between swayedLeft swayedRight).after turnThenHold rs₁ (k + 1)).rotation
      | .error _ => false) = true := by
    decide +kernel
  rw [hrs₁] at hcheck
  have hk : k < 4 := by
    have hlen : rs₁.length = 4 := Machine.length_of_run hrs₁
    rw [← hlen]
    exact (List.getElem?_eq_some_iff.mp hr₁).1
  simpa using List.all_eq_true.mp hcheck k (List.mem_range.mpr hk)
