import OmniRobot.Imu.Heading
import OmniRobot.Interleaving.Step

/-!
# The heading under interleaving

`imu_update` reads the heading in one critical section and writes it back in another, to `g_imu`
and to `yaw_angle`. `imu_reset_yaw` clears the one in `g_imu` alone. A reset between the read and
the write is overwritten, and a reset after the last write of a call leaves the old heading in
`yaw_angle`.

## Main results

* `reset_keeps_heading`: resets that come in time are never lost and leave one heading;
* `reset_loses_heading`: the two ways in which a reset is lost;
* `heading_exact`: without resets, the heading is the sum of all turns up to whole turns.
-/

namespace Interleaving

/-- The bursts read since the last reset. -/
def sinceReset {F : Type} (log : List (Event F)) : List Burst :=
  log.foldl (fun bufs e => match e with
    | .reset => []
    | .read buf => bufs ++ [buf]
    | _ => bufs) []

section Log

variable {F : Type} (log : List (Event F))

@[simp] theorem sinceReset_reset : sinceReset (log ++ [.reset]) = [] := by
  rw [sinceReset, List.foldl_append]
  rfl

@[simp] theorem sinceReset_read (buf : Burst) :
    sinceReset (log ++ [.read buf]) = sinceReset log ++ [buf] := by
  rw [sinceReset, List.foldl_append]
  rfl

theorem sinceReset_append {es : List (Event F)} (h : ∀ e ∈ es, e.Neutral) :
    sinceReset (log ++ es) = sinceReset log := by
  induction es using List.reverseRecOn with
  | nil => rw [List.append_nil]
  | append_singleton es e ih =>
    rw [List.forall_mem_append, List.forall_mem_singleton] at h
    rw [← ih h.1, ← List.append_assoc, sinceReset, List.foldl_append]
    cases e with
    | reset => exact h.2.elim
    | read buf => exact h.2.elim
    | _ => rfl

/-- Without resets every burst counts. -/
theorem sinceReset_eq_bursts (h : .reset ∉ log) : sinceReset log = bursts log := by
  induction log using List.reverseRecOn with
  | nil => rfl
  | append_singleton log e ih =>
    rw [List.mem_append, not_or] at h
    rw [bursts, List.filterMap_append, ← bursts, ← ih h.1, sinceReset, List.foldl_append]
    cases e with
    | reset => exact absurd (List.mem_singleton.mpr rfl) h.2
    | read buf => rfl
    | _ => exact (List.append_nil _).symm

end Log

/-! ### Resets in time -/

/-- The heading that is carried on: the one about to be written, or else the one in `g_imu`. -/
def Shared.heading {F : Type} : Shared F → F
  | ⟨_, .window _ next⟩ => next.yaw
  | ⟨imu, _⟩ => imu.gImu.yaw

/-- No read of the heading and no write of it are ahead. -/
def Phase.Settled {F : Type} : Phase F → Prop
  | .idle => True
  | .head _ => False
  | .window _ _ => False
  | .drive c _ => c.ticksToProcess = 0

theorem heading_resume {F : Type} (imu : Imu F) (c : Call F) :
    Shared.heading ⟨imu, c.resume.1⟩ = imu.gImu.yaw := by
  unfold Call.resume
  split_ifs <;> rfl

theorem settled_resume {F : Type} {c : Call F} (h : c.resume.1.Settled) : c.ticksToProcess = 0 := by
  unfold Call.resume at h
  split_ifs at h with hc
  · exact hc
  · exact h.elim

/-- What a step leaves that neither reads nor writes a heading. -/
structure SameHeading {F : Type} (imu imu' : Imu F) : Prop where
  gzOffset_eq : imu'.gzOffset = imu.gzOffset
  gDeadzone_eq : imu'.gDeadzone = imu.gDeadzone
  gImu_eq : imu'.gImu = imu.gImu
  yawAngle_eq : imu'.yawAngle = imu.yawAngle

section

variable {F : Type} [Field F] [LinearOrder F] [IsStrictOrderedRing F] [FloorRing F]

/-- A reset comes in time if `imu_update` is about to read the heading, now or for a further tick
of the same call, and so has not read the heading that it writes next; or else if the heading left
behind is 0 anyway. -/
def ResetInTime : Action → Shared F → Prop
  | .reset, ⟨imu, .idle⟩ => imu.yawAngle = 0
  | .reset, ⟨_, .head _⟩ => True
  | .reset, ⟨_, .window _ next⟩ => next.yaw = 0
  | .reset, ⟨imu, .drive c _⟩ => c.ticksToProcess ≠ 0 ∨ imu.yawAngle = 0
  | _, _ => True

instance (a : Action) (s : Shared F) : Decidable (ResetInTime a s) := by
  unfold ResetInTime
  split <;> infer_instance

/-- What a run keeps whose resets come in time: the heading integrates the bursts read since the
last one, and once it is settled, `yaw_angle` tells it as well. -/
structure OneHeading (gzOffset gDeadzone : F) (s : Shared F) (log : List (Event F)) : Prop where
  gzOffset_eq : s.imu.gzOffset = gzOffset
  gDeadzone_eq : s.imu.gDeadzone = gDeadzone
  heading_eq : s.heading = yawAfter gzOffset gDeadzone 0 (sinceReset log)
  yawAngle_eq : s.phase.Settled → s.imu.yawAngle = s.imu.gImu.yaw

omit [LinearOrder F] [IsStrictOrderedRing F] [FloorRing F] in
theorem switchYawHold_sameHeading (vrCmd : ℤ) (imu : Imu F) :
    SameHeading imu (switchYawHold vrCmd imu) := by
  unfold switchYawHold
  split_ifs <;> exact ⟨rfl, rfl, rfl, rfl⟩

theorem writeRotation_sameHeading (c : Call F) (newYaw : F) (imu : Imu F) :
    SameHeading imu (c.writeRotation newYaw imu) := by
  unfold Call.writeRotation
  split_ifs <;> exact ⟨rfl, rfl, rfl, rfl⟩

/-- Each critical section keeps one heading, a reset if it comes in time. -/
theorem oneHeading_step {gzOffset gDeadzone : F} {a : Action} {s : Shared F}
    {r : Shared F × List (Event F)} {log : List (Event F)} (hreset : ResetInTime a s)
    (h : OneHeading gzOffset gDeadzone s log) (hstep : step a s = .ok r) :
    OneHeading gzOffset gDeadzone r.1 (log ++ r.2) := by
  obtain ⟨hoff, hdz, hheading, hangle⟩ := h
  cases steps_of_step hstep with
  | timer imu phase =>
    refine ⟨hoff, hdz, ?_, hangle⟩
    rw [sinceReset_append log (by simp [Event.Neutral]), ← hheading]
    cases phase <;> rfl
  | reset imu phase =>
    refine ⟨hoff, hdz, ?_, ?_⟩
    · -- nothing is read since, and 0 is what is carried on
      rw [sinceReset_reset]
      cases phase with
      | window c next => exact hreset
      | _ => rfl
    · intro hsettled
      cases phase with
      | idle => exact hreset
      | head c => exact hsettled.elim
      | window c next => exact hsettled.elim
      | drive c newYaw => exact hreset.resolve_left (not_not_intro hsettled)
  | switch vrCmd imu =>
    obtain ⟨hoff', hdz', hgImu, hangle'⟩ := switchYawHold_sameHeading vrCmd imu
    refine ⟨hoff'.trans hoff, hdz'.trans hdz, ?_, fun _ => ?_⟩
    · rw [List.append_nil, ← hheading]
      exact congrArg IMUSnapshot.yaw hgImu
    · rw [hgImu, hangle']
      exact hangle trivial
  | look imu =>
    refine ⟨hoff, hdz, ?_, hangle⟩
    rw [sinceReset_append log (by simp [Event.Neutral]), ← hheading]
  | claim vrCmd imu c hc =>
    refine ⟨hoff, hdz, ?_, fun _ => hangle trivial⟩
    rw [sinceReset_append, heading_resume, ← hheading]
    · rfl
    · rw [List.forall_mem_cons]
      exact ⟨trivial, resume_neutral c⟩
  | readHeading buf imu c =>
    refine ⟨hoff, hdz, ?_, fun hsettled => hsettled.elim⟩
    -- the burst is read together with the heading that integrates the bursts before it
    rw [sinceReset_read, yawAfter_append, ← hheading, ← hoff, ← hdz]
    rfl
  | writeHeading imu c next =>
    refine ⟨hoff, hdz, ?_, fun _ => rfl⟩
    rw [List.append_nil, ← hheading]
    rfl
  | writeRotation imu c newYaw =>
    obtain ⟨hoff', hdz', hgImu, hangle'⟩ := writeRotation_sameHeading c newYaw imu
    refine ⟨hoff'.trans hoff, hdz'.trans hdz, ?_, fun hsettled => ?_⟩
    · rw [sinceReset_append log (resume_neutral c), heading_resume, hgImu, ← hheading]
      rfl
    · rw [hgImu, hangle']
      exact hangle (settled_resume hsettled)

theorem oneHeading_run {gzOffset gDeadzone : F} {actions : List Action}
    {rs : List (Shared F × List (Event F))}
    (h : runSteps actions ⟨.init gzOffset gDeadzone, .idle⟩ = .ok rs)
    (hreset : Machine.Along ResetInTime actions ⟨.init gzOffset gDeadzone, .idle⟩ rs) :
    OneHeading gzOffset gDeadzone (Machine.final ⟨.init gzOffset gDeadzone, .idle⟩ rs)
      (Machine.log rs) := by
  have hinit : OneHeading gzOffset gDeadzone ⟨.init gzOffset gDeadzone, .idle⟩ [] :=
    ⟨rfl, rfl, rfl, fun _ => rfl⟩
  exact Machine.run_log (C := ResetInTime) (R := OneHeading gzOffset gDeadzone)
    (fun _ _ _ _ hi hs hstep => oneHeading_step hi hs hstep) hinit h hreset

/-- Resets in time. In every interleaving whose resets all come in time, whenever `imu_update` is
not between two of its critical sections, `yaw_angle` and `g_imu` tell one heading: the integral
of the bursts read since the last reset. -/
theorem reset_keeps_heading {gzOffset gDeadzone : F} {actions : List Action}
    {rs : List (Shared F × List (Event F))}
    (h : runSteps actions ⟨.init gzOffset gDeadzone, .idle⟩ = .ok rs)
    (hreset : Machine.Along ResetInTime actions ⟨.init gzOffset gDeadzone, .idle⟩ rs)
    (hidle : (Machine.final ⟨.init gzOffset gDeadzone, .idle⟩ rs).phase = .idle) :
    (Machine.final ⟨.init gzOffset gDeadzone, .idle⟩ rs).imu.yawAngle =
        (Machine.final ⟨.init gzOffset gDeadzone, .idle⟩ rs).imu.gImu.yaw ∧
      (Machine.final ⟨.init gzOffset gDeadzone, .idle⟩ rs).imu.gImu.yaw =
        yawAfter gzOffset gDeadzone 0 (sinceReset (Machine.log rs)) := by
  obtain ⟨-, -, hheading, hangle⟩ := oneHeading_run h hreset
  generalize Machine.final ⟨.init gzOffset gDeadzone, .idle⟩ rs = s at hidle hheading hangle ⊢
  obtain ⟨imu, phase⟩ := s
  obtain rfl : phase = .idle := hidle
  exact ⟨hangle trivial, hheading⟩

end

/-- A tick that turns as fast as the sensor can tell, while the pilot turns: the loop up to the
read of the heading. -/
def turnToRead : List Action :=
  [.timer, .switch 30, .claim 30, .readHeading (.ofGz 0x7F 0xFF)]

/-- Two ticks, with a reset after the first. -/
def turnResetTurn : List Action :=
  [.timer, .timer, .switch 30, .claim 30, .readHeading (.ofGz 0x7F 0xFF), .writeHeading,
    .writeRotation, .reset, .readHeading (.ofGz 0x10 0x00), .writeHeading, .writeRotation]

/-- A reset in the middle of a call, after which the second burst alone counts. -/
theorem reset_keeps_heading_turn :
    ∃ rs, runSteps turnResetTurn (⟨.init 0 0, .idle⟩ : Shared ℚ) = .ok rs ∧
      (Machine.final ⟨.init 0 0, .idle⟩ rs).imu.yawAngle =
        (Machine.final ⟨.init 0 0, .idle⟩ rs).imu.gImu.yaw ∧
      (Machine.final ⟨.init 0 0, .idle⟩ rs).imu.gImu.yaw =
        yawAfter 0 0 0 (sinceReset (Machine.log rs)) := by
  have hcheck : (match runSteps turnResetTurn (⟨.init 0 0, .idle⟩ : Shared ℚ) with
      | .ok rs => decide (Machine.Along ResetInTime turnResetTurn ⟨.init 0 0, .idle⟩ rs ∧
          (Machine.final ⟨.init 0 0, .idle⟩ rs).phase = .idle)
      | .error _ => false) = true := by
    decide +kernel
  split at hcheck
  next rs hrs =>
    obtain ⟨hreset, hidle⟩ := of_decide_eq_true hcheck
    exact ⟨rs, hrs, reset_keeps_heading hrs hreset hidle⟩
  · cases hcheck

/-- A reset is lost in two ways. After the last write of a call it leaves the old heading in
`yaw_angle`. Between the read of the heading and the write it is overwritten. -/
theorem reset_loses_heading :
    (¬ ∀ (gzOffset gDeadzone : ℚ) (actions : List Action)
      (rs : List (Shared ℚ × List (Event ℚ))),
      runSteps actions ⟨.init gzOffset gDeadzone, .idle⟩ = .ok rs →
        (Machine.final ⟨.init gzOffset gDeadzone, .idle⟩ rs).phase = .idle →
          (Machine.final ⟨.init gzOffset gDeadzone, .idle⟩ rs).imu.yawAngle =
            (Machine.final ⟨.init gzOffset gDeadzone, .idle⟩ rs).imu.gImu.yaw) ∧
    ¬ ∀ (gzOffset gDeadzone : ℚ) (actions : List Action)
      (rs : List (Shared ℚ × List (Event ℚ))),
      runSteps actions ⟨.init gzOffset gDeadzone, .idle⟩ = .ok rs →
        (Machine.final ⟨.init gzOffset gDeadzone, .idle⟩ rs).phase = .idle →
          (Machine.final ⟨.init gzOffset gDeadzone, .idle⟩ rs).imu.gImu.yaw =
            yawAfter gzOffset gDeadzone 0 (sinceReset (Machine.log rs)) := by
  constructor
  · intro h
    have hcheck : (match runSteps (turnToRead ++ [.writeHeading, .writeRotation, .reset])
          (⟨.init 0 0, .idle⟩ : Shared ℚ) with
        | .ok rs => decide ((Machine.final ⟨.init 0 0, .idle⟩ rs).phase = .idle ∧
            (Machine.final ⟨.init 0 0, .idle⟩ rs).imu.yawAngle ≠
              (Machine.final ⟨.init 0 0, .idle⟩ rs).imu.gImu.yaw)
        | .error _ => false) = true := by
      decide +kernel
    split at hcheck
    next rs hrs =>
      obtain ⟨hidle, hne⟩ := of_decide_eq_true hcheck
      exact hne (h 0 0 _ rs hrs hidle)
    · cases hcheck
  · intro h
    have hcheck : (match runSteps (turnToRead ++ [.reset, .writeHeading, .writeRotation])
          (⟨.init 0 0, .idle⟩ : Shared ℚ) with
        | .ok rs => decide ((Machine.final ⟨.init 0 0, .idle⟩ rs).phase = .idle ∧
            (Machine.final ⟨.init 0 0, .idle⟩ rs).imu.gImu.yaw ≠
              yawAfter 0 0 0 (sinceReset (Machine.log rs)))
        | .error _ => false) = true := by
      decide +kernel
    split at hcheck
    next rs hrs =>
      obtain ⟨hidle, hne⟩ := of_decide_eq_true hcheck
      exact hne (h 0 0 _ rs hrs hidle)
    · cases hcheck

/-! ### Without resets -/

section

variable {F : Type} [Field F] [LinearOrder F] [IsStrictOrderedRing F] [FloorRing F]

/-- Without resets the two variables always agree. -/
theorem yawAngle_step {a : Action} {s : Shared F} {r : Shared F × List (Event F)}
    (ha : a ≠ .reset) (h : s.imu.yawAngle = s.imu.gImu.yaw) (hstep : step a s = .ok r) :
    r.1.imu.yawAngle = r.1.imu.gImu.yaw := by
  cases steps_of_step hstep with
  | reset imu phase => exact absurd rfl ha
  | switch vrCmd imu =>
    obtain ⟨-, -, hgImu, hangle⟩ := switchYawHold_sameHeading vrCmd imu
    rw [hgImu, hangle]
    exact h
  | writeHeading imu c next => rfl
  | writeRotation imu c newYaw =>
    obtain ⟨-, -, hgImu, hangle⟩ := writeRotation_sameHeading c newYaw imu
    rw [hgImu, hangle]
    exact h
  | _ => exact h

theorem reset_not_mem_step {a : Action} {s : Shared F} {r : Shared F × List (Event F)}
    (ha : a ≠ .reset) (hstep : step a s = .ok r) : .reset ∉ r.2 := by
  cases steps_of_step hstep with
  | reset imu phase => exact absurd rfl ha
  | claim vrCmd imu c hc =>
    rw [List.mem_cons, not_or]
    exact ⟨nofun, fun h => resume_neutral c _ h⟩
  | writeRotation imu c newYaw => exact fun h => resume_neutral c _ h
  | _ => simp

omit [LinearOrder F] [IsStrictOrderedRing F] [FloorRing F] in
theorem resetInTime_of_ne {a : Action} (ha : a ≠ .reset) (s : Shared F) : ResetInTime a s := by
  cases a with
  | reset => exact absurd rfl ha
  | _ => trivial

/-- The heading is exact. In every interleaving without resets, whenever no heading that has been
read is still to be written, `g_imu` and `yaw_angle` tell one heading in `[-180, 180]`: the sum of
the turns of all bursts read so far, up to whole turns. -/
theorem heading_exact {gzOffset gDeadzone : F} (hoffset : |gzOffset| ≤ 286.72)
    {actions : List Action} (hreset : .reset ∉ actions) {rs : List (Shared F × List (Event F))}
    (h : runSteps actions ⟨.init gzOffset gDeadzone, .idle⟩ = .ok rs)
    (hphase : ∀ c next, (Machine.final ⟨.init gzOffset gDeadzone, .idle⟩ rs).phase ≠
      .window c next) :
    ∃ yaw, (Machine.final ⟨.init gzOffset gDeadzone, .idle⟩ rs).imu.gImu.yaw = yaw ∧
      (Machine.final ⟨.init gzOffset gDeadzone, .idle⟩ rs).imu.yawAngle = yaw ∧
      (-180 ≤ yaw ∧ yaw ≤ 180) ∧
      ∃ k : ℤ, yaw = totalTurn gzOffset gDeadzone (bursts (Machine.log rs)) + 360 * k := by
  have hne : ∀ a ∈ actions, a ≠ .reset := fun a ha he => hreset (he ▸ ha)
  have hheading := (oneHeading_run h
    (Machine.along_of_forall (fun a ha s => resetInTime_of_ne (hne a ha) s) _ _)).heading_eq
  -- no reset, so all bursts count and the two variables agree
  have hkept := Machine.run_log (C := fun a _ => a ≠ .reset)
    (R := fun s log => s.imu.yawAngle = s.imu.gImu.yaw ∧ .reset ∉ log)
    (fun a s r log ha hs hstep => ⟨yawAngle_step ha hs.1 hstep, fun hmem =>
      (List.mem_append.mp hmem).elim hs.2 (reset_not_mem_step ha hstep)⟩)
    ⟨rfl, List.not_mem_nil⟩ h (Machine.along_of_forall (fun a ha _ => hne a ha) _ _)
  obtain ⟨hangle, hlog⟩ := hkept
  rw [List.nil_append] at hlog
  rw [sinceReset_eq_bursts _ hlog] at hheading
  obtain ⟨hle, k, hk⟩ := yawAfter_spec hoffset gDeadzone (bursts (Machine.log rs))
    (show |(0 : F)| ≤ 180 by rw [abs_zero]; norm_num)
  generalize Machine.final ⟨.init gzOffset gDeadzone, .idle⟩ rs = s at hphase hheading hangle ⊢
  have hyaw : s.heading = s.imu.gImu.yaw := by
    obtain ⟨imu, phase⟩ := s
    cases phase with
    | window c next => exact absurd rfl (hphase c next)
    | _ => rfl
  rw [hyaw] at hheading
  refine ⟨_, rfl, hangle, ?_, k, ?_⟩
  · rw [hheading]
    exact abs_le.mp hle
  · rw [hheading, hk, zero_add]

end

/-- The offset that a calibration measures from two bursts. -/
def driftOffset : ℚ := lsm6ds3CalibrateGyro [.ofGz 0x00 0x10, .ofGz 0x00 0x11] []

/-- A tick that turns, and one within the dead zone, in two calls. -/
def turnAndRest : List Action :=
  [.timer, .claim 0, .readHeading (.ofGz 0x7F 0xFF), .timer, .writeHeading, .writeRotation,
    .switch 0, .claim 0, .readHeading (.ofGz 0x00 0x10), .writeHeading, .writeRotation]

/-- Two calls, with the offset of a calibration. -/
theorem heading_exact_calibrated :
    ∃ rs yaw, runSteps turnAndRest (⟨.init driftOffset (1 / 5), .idle⟩ : Shared ℚ) = .ok rs ∧
      (Machine.final ⟨.init driftOffset (1 / 5), .idle⟩ rs).imu.gImu.yaw = yaw ∧
      (Machine.final ⟨.init driftOffset (1 / 5), .idle⟩ rs).imu.yawAngle = yaw ∧
      (-180 ≤ yaw ∧ yaw ≤ 180) ∧
      ∃ k : ℤ, yaw = totalTurn driftOffset (1 / 5) (bursts (Machine.log rs)) + 360 * k := by
  have hcheck : (match runSteps turnAndRest
        (⟨.init driftOffset (1 / 5), .idle⟩ : Shared ℚ) with
      | .ok rs => decide ((Machine.final ⟨.init driftOffset (1 / 5), .idle⟩ rs).phase = .idle)
      | .error _ => false) = true := by
    decide +kernel
  split at hcheck
  next rs hrs =>
    have hidle := of_decide_eq_true hcheck
    have hoffset : |driftOffset| ≤ 286.72 := abs_lsm6ds3CalibrateGyro_le _ _
    obtain ⟨yaw, hyaw⟩ := heading_exact hoffset (by decide) hrs
      (fun c next h => by rw [hidle] at h; cases h)
    exact ⟨rs, yaw, hrs, hyaw⟩
  · cases hcheck

end Interleaving
