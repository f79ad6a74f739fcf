import Mathlib.Analysis.SpecialFunctions.Trigonometric.Basic
import OmniRobot.Loop.Spec

/-!
# Headless driving

While headless mode is on, the stick is read in the frame the robot had when the mode was switched
on: the reference yaw is locked then, and each command is rotated back by the yaw turned since.
Here numbers are real and `sin` and `cos` the real functions.

## Main results

* `headlessYawRef_eq`: the reference stays locked through a stretch;
* `driveCommand_headless`: the rotated command;
* `rotated_norm_le` and `rotated_back`: truncation shortens it, and changes it by little;
* `pilot_eq_of_run`: the pilot is the same in runs over other numbers;
* `headless_run`: all of it along every run.
-/

/-- The real `sin` and `cos`. -/
noncomputable def realTrig : Trig ℝ := ⟨Real.sin, Real.cos⟩

/-! ### The rotated command -/

section Rotation

variable (vx vy : ℤ) (a : ℝ)

/-- The stick command `(vx, vy)`, rotated by `a` and truncated. -/
noncomputable def rotated : ℤ × ℤ :=
  (truncZ (vx * Real.cos a - vy * Real.sin a), truncZ (vx * Real.sin a + vy * Real.cos a))

/-- The rotated command is no longer than the stick command. -/
theorem rotated_norm_le :
    (rotated vx vy a).1 ^ 2 + (rotated vx vy a).2 ^ 2 ≤ vx ^ 2 + vy ^ 2 := by
  have hsq : ∀ x : ℝ, ((truncZ x : ℤ) : ℝ) ^ 2 ≤ x ^ 2 := fun x => sq_le_sq.mpr (abs_truncZ_le x)
  -- a rotation keeps the length, and truncation shortens each component
  have hnorm : (vx * Real.cos a - vy * Real.sin a) ^ 2 +
      (vx * Real.sin a + vy * Real.cos a) ^ 2 = (vx : ℝ) ^ 2 + vy ^ 2 := by
    linear_combination ((vx : ℝ) ^ 2 + vy ^ 2) * Real.sin_sq_add_cos_sq a
  have hreal : ((rotated vx vy a).1 : ℝ) ^ 2 + ((rotated vx vy a).2 : ℝ) ^ 2 ≤
      (vx : ℝ) ^ 2 + vy ^ 2 := by
    rw [← hnorm]
    exact add_le_add (hsq _) (hsq _)
  exact_mod_cast hreal

/-- Two errors below one, rotated, are below two. -/
theorem abs_rotate_lt {x y : ℝ} (hx : |x| < 1) (hy : |y| < 1) :
    |x * Real.cos a + y * Real.sin a| < 2 := by
  have hcos : |x * Real.cos a| ≤ |x| := by
    rw [abs_mul]
    exact mul_le_of_le_one_right (abs_nonneg x) (Real.abs_cos_le_one a)
  have hsin : |y * Real.sin a| ≤ |y| := by
    rw [abs_mul]
    exact mul_le_of_le_one_right (abs_nonneg y) (Real.abs_sin_le_one a)
  calc |x * Real.cos a + y * Real.sin a| ≤ |x * Real.cos a| + |y * Real.sin a| := abs_add_le _ _
    _ < 2 := by linarith

/-- Rotated back, the command is the stick command but for less than two in each component. -/
theorem rotated_back :
    |(rotated vx vy a).1 * Real.cos a + (rotated vx vy a).2 * Real.sin a - vx| < 2 ∧
      |-((rotated vx vy a).1 * Real.sin a) + (rotated vx vy a).2 * Real.cos a - vy| < 2 := by
  have hone := Real.sin_sq_add_cos_sq a
  have hx := abs_sub_truncZ_lt (vx * Real.cos a - vy * Real.sin a)
  have hy := abs_sub_truncZ_lt (vx * Real.sin a + vy * Real.cos a)
  rw [abs_sub_comm] at hx hy
  change |((rotated vx vy a).1 : ℝ) - _| < 1 at hx
  change |((rotated vx vy a).2 : ℝ) - _| < 1 at hy
  -- turned back, the exact rotation is the command, and only the truncation errors are left
  constructor
  · convert abs_rotate_lt a hx hy using 2
    linear_combination (vx : ℝ) * hone
  · rw [← abs_neg] at hx
    convert abs_rotate_lt a hy hx using 2
    linear_combination (vy : ℝ) * hone

theorem rotated_zero : rotated vx vy 0 = (vx, vy) := by
  simp [rotated]

end Rotation

/-! ### One iteration -/

/-- The reference is locked when headless mode comes on, and stays while it is on. -/
theorem headlessYawRef_step {trig : Trig ℝ} {i : Input} {s : LoopState ℝ}
    {r : LoopState ℝ × Observation} (h : Iterates trig i s r)
    (hon : r.1.pilot.headlessMode = true) :
    r.1.headlessYawRef = if s.headlessPrev then s.headlessYawRef else r.1.imu.yawAngle := by
  rw [h.headlessYawRef_eq, hon, Bool.true_and]
  cases s.headlessPrev <;> rfl

/-- The yaw turned since the reference was locked, in degrees. -/
noncomputable def LoopState.yawDelta (s : LoopState ℝ) : ℝ :=
  wrapAngle (s.imu.yawAngle - s.headlessYawRef)

/-- The command driven in headless mode. -/
theorem driveCommand_headless {s : LoopState ℝ} (hmode : s.pilot.mode ≠ .none)
    (hon : s.pilot.headlessMode = true) :
    driveCommand realTrig s =
      ((rotated s.pilot.vxCmd s.pilot.vyCmd (s.yawDelta * 3.14159 / 180)).1,
        (rotated s.pilot.vxCmd s.pilot.vyCmd (s.yawDelta * 3.14159 / 180)).2, s.imu.vrFinal) := by
  -- the source turns by the negated angle
  have hradians : -s.yawDelta * (314159 / 100000) / 180 = -(s.yawDelta * 3.14159 / 180) := by
    norm_num
    ring
  unfold driveCommand
  dsimp only
  rw [if_pos hmode, if_pos hon]
  change (truncZ (_ * Real.cos (-s.yawDelta * (314159 / 100000) / 180) +
      _ * Real.sin (-s.yawDelta * (314159 / 100000) / 180)),
    truncZ (-_ * Real.sin (-s.yawDelta * (314159 / 100000) / 180) +
      _ * Real.cos (-s.yawDelta * (314159 / 100000) / 180)), _) = _
  rw [hradians, Real.cos_neg, Real.sin_neg, rotated]
  simp only [mul_neg, neg_mul, neg_neg, ← sub_eq_add_neg]

/-! ### The radio alone -/

/-- Two states, perhaps over different numbers, that have heard the same. -/
structure SameRadio {F F' : Type} (s : LoopState F) (s' : LoopState F') : Prop where
  parser_eq : s.parser = s'.parser
  rc_eq : s.rc = s'.rc
  pilot_eq : s.pilot = s'.pilot

section

variable {F F' : Type} [Field F] [LinearOrder F] [IsStrictOrderedRing F] [FloorRing F] [Field F']
  [LinearOrder F'] [IsStrictOrderedRing F'] [FloorRing F'] {trig : Trig F} {trig' : Trig F'}

theorem sameRadio_steer (i : Input) {s : LoopState F} {s' : LoopState F'} (h : SameRadio s s') :
    SameRadio (steer i s) (steer i s') := by
  obtain ⟨hparser, hrc, hpilot⟩ := h
  rw [steer_eq i s, steer_eq i s']
  exact ⟨hparser, hrc, hpilot⟩

/-- What the pilot does with a read depends on no number but the channels. -/
theorem sameRadio_loop {i : Input} {s : LoopState F} {s' : LoopState F'}
    {r : LoopState F × Observation} {r' : LoopState F' × Observation} (hs : SameRadio s s')
    (h : loop trig i s = .ok r) (h' : loop trig' i s' = .ok r') : SameRadio r.1 r'.1 := by
  obtain ⟨hparser, hrc, hpilot⟩ := hs
  by_cases hserial : i.serial.val = []
  · have hreceive : receive i (prepare i s) = .ok (prepare i s, []) := if_pos hserial
    have hreceive' : receive i (prepare i s') = .ok (prepare i s', []) := if_pos hserial
    rw [loop, hreceive, Crsf.ok_bind] at h
    rw [loop, hreceive', Crsf.ok_bind] at h'
    cases h
    cases h'
    have hprepare : SameRadio (prepare i s) (prepare i s') := ⟨hparser, hrc, hpilot⟩
    obtain ⟨hparser', hrc', hpilot'⟩ := sameRadio_steer i hprepare
    exact ⟨hparser', hrc', hpilot'⟩
  · -- both parse the same bytes from the same state
    have hsame : Crsf.crsfParse rcInputMaxChannels i.serial.val (prepare i s).parser
        (prepare i s).rc = Crsf.crsfParse rcInputMaxChannels i.serial.val (prepare i s').parser
          (prepare i s').rc :=
      congrArg₂ (Crsf.crsfParse rcInputMaxChannels i.serial.val) hparser hrc
    rw [loop, receive, if_neg hserial, hsame] at h
    rw [loop, receive, if_neg hserial] at h'
    cases hparse : Crsf.crsfParse rcInputMaxChannels i.serial.val (prepare i s').parser
        (prepare i s').rc with
    | error e =>
      rw [hparse] at h
      cases h
    | ok p =>
      rw [hparse, Crsf.ok_bind, Crsf.pure_eq_ok, Crsf.ok_bind] at h h'
      cases h
      cases h'
      have hpilot' := congrArg (Pilot.update p.out.values i.buttons.circle) hpilot
      have hheard : SameRadio
          { prepare i s with
            parser := p.parser
            rc := p.out
            servos := (prepare i s).servos.toggleMid p.out.values
            pilot := (prepare i s).pilot.update p.out.values i.buttons.circle }
          { prepare i s' with
            parser := p.parser
            rc := p.out
            servos := (prepare i s').servos.toggleMid p.out.values
            pilot := (prepare i s').pilot.update p.out.values i.buttons.circle } :=
        ⟨rfl, rfl, hpilot'⟩
      obtain ⟨h₁, h₂, h₃⟩ := sameRadio_steer i hheard
      exact ⟨h₁, h₂, h₃⟩

/-- So runs on the same inputs have the same pilot, iteration by iteration. -/
theorem pilot_eq_of_run {inputs : List Input} {s : LoopState F} {s' : LoopState F'}
    {rs : List (LoopState F × Observation)} {rs' : List (LoopState F' × Observation)}
    (hs : SameRadio s s') (h : runLoop trig inputs s = .ok rs)
    (h' : runLoop trig' inputs s' = .ok rs') {k : ℕ} {r : LoopState F × Observation}
    {r' : LoopState F' × Observation} (hr : rs[k]? = some r) (hr' : rs'[k]? = some r') :
    r.1.pilot = r'.1.pilot := by
  have hk : k < inputs.length :=
    Machine.length_of_run h ▸ (List.getElem?_eq_some_iff.mp hr).1
  have hsame := Machine.run_induction
    (P := fun k s => SameRadio s (Machine.final s' (rs'.take k)))
    (fun k i s r hi hs hstep => by
      have hlt : k < rs'.length :=
        Machine.length_of_run h' ▸ (List.getElem?_eq_some_iff.mp hi).1
      have hplace := List.getElem?_eq_getElem hlt
      obtain ⟨i', hi', hstep'⟩ := Machine.step_of_run h' hplace
      obtain rfl : i = i' := Option.some.inj (hi.symm.trans hi')
      rw [Machine.final_take_succ hplace]
      exact sameRadio_loop hs hstep hstep')
    hs h (Nat.succ_le_of_lt hk)
  rw [Machine.final_take_succ hr, Machine.final_take_succ hr'] at hsame
  exact hsame.pilot_eq

end

/-! ### Runs -/

/-- Headless mode is on in the iterations `j` to `m` of a run, and was not on before. -/
structure Stretch (rs : List (LoopState ℝ × Observation)) (j m : ℕ) : Prop where
  le : j ≤ m
  on : ∀ k, j ≤ k → k ≤ m → ∃ r, rs[k]? = some r ∧ r.1.pilot.headlessMode = true
  first : j = 0 ∨ ∃ r, rs[j - 1]? = some r ∧ r.1.pilot.headlessMode = false

section Runs

variable {gzOffset gDeadzone : ℝ} {inputs : List Input} {rs : List (LoopState ℝ × Observation)}
  (hrs : runLoop realTrig inputs (.init gzOffset gDeadzone) = .ok rs)

include hrs

/-- The edge detector holds the level of the last iteration. -/
theorem headlessPrev_final {k : ℕ} {r : LoopState ℝ × Observation} (hr : rs[k]? = some r) :
    (Machine.final (.init gzOffset gDeadzone) (rs.take (k + 1))).headlessPrev =
      r.1.pilot.headlessMode := by
  obtain ⟨i, -, hiter⟩ := iterates_of_run (LoopState.ok_init gzOffset gDeadzone) hrs hr
  rw [Machine.final_take_succ hr, hiter.headlessPrev_eq]

/-- Before a stretch headless mode was off. -/
theorem headlessPrev_of_stretch {j m : ℕ} (hstretch : Stretch rs j m) :
    (Machine.final (.init gzOffset gDeadzone) (rs.take j)).headlessPrev = false := by
  cases j with
  | zero => rfl
  | succ j =>
    obtain hzero | ⟨r, hr, hoff⟩ := hstretch.first
    · cases hzero
    · rw [Nat.add_sub_cancel] at hr
      rw [headlessPrev_final hrs hr, hoff]

/-- The reference stays locked on the yaw of the first iteration of a stretch. -/
theorem headlessYawRef_eq {j m : ℕ} (hstretch : Stretch rs j m)
    {rj rm : LoopState ℝ × Observation} (hj : rs[j]? = some rj) (hm : rs[m]? = some rm) :
    rm.1.headlessYawRef = rj.1.imu.yawAngle := by
  obtain ⟨l, hl⟩ := Nat.exists_eq_add_of_le hstretch.le
  have hon : ∀ k, j ≤ k → k ≤ m → ∀ r, rs[k]? = some r → r.1.pilot.headlessMode = true := by
    intro k h₁ h₂ r hr
    obtain ⟨r', hr', hon⟩ := hstretch.on k h₁ h₂
    rwa [Option.some.inj (hr.symm.trans hr')]
  induction l generalizing m rm with
  | zero =>
    obtain rfl : m = j := by omega
    obtain rfl : rj = rm := Option.some.inj (hj.symm.trans hm)
    obtain ⟨i, -, hiter⟩ := iterates_of_run (LoopState.ok_init gzOffset gDeadzone) hrs hj
    rw [headlessYawRef_step hiter (hon m le_rfl le_rfl rj hj)]
    -- a rising edge: the reference is locked here
    rw [headlessPrev_of_stretch hrs hstretch]
    rfl
  | succ l ih =>
    obtain ⟨m, rfl⟩ : ∃ m', m = m' + 1 := ⟨m - 1, by omega⟩
    obtain ⟨r, hr, honr⟩ := hstretch.on m (by omega) (by omega)
    obtain ⟨i, -, hiter⟩ := iterates_of_run (LoopState.ok_init gzOffset gDeadzone) hrs hm
    -- no edge: the reference is that of the iteration before
    rw [headlessYawRef_step hiter (hon (m + 1) (by omega) le_rfl rm hm),
      headlessPrev_final hrs hr, honr, if_pos rfl, Machine.final_take_succ hr]
    exact ih ⟨by omega, fun k h₁ h₂ => hstretch.on k h₁ (by omega), hstretch.first⟩ hr (by omega)
      fun k h₁ h₂ => hon k h₁ (by omega)

end Runs

/-- Headless driving keeps the field frame. In every run, through every stretch of headless mode
from its first iteration `j` on, the reference is the yaw read in iteration `j`; and whenever a
pilot mode is selected, the translation driven is the stick command rotated by the yaw `d` turned
since, which is the angle in `[-180, 180]`, up to the sign of 180, that differs from it by whole
turns. The translation is no longer than the command, comes back to it within two when rotated
back, and in iteration `j` the arguments are those of the plain path. -/
theorem headless_run (gzOffset gDeadzone : ℝ) (inputs : List Input) :
    ∃ rs, runLoop realTrig inputs (.init gzOffset gDeadzone) = .ok rs ∧
      ∀ j m rj rm, Stretch rs j m → rs[j]? = some rj → rs[m]? = some rm →
        rm.1.headlessYawRef = rj.1.imu.yawAngle ∧
        (rm.1.pilot.mode ≠ .none → ∃ d a : ℝ, a = d * 3.14159 / 180 ∧
          ((-180 ≤ d ∧ d ≤ 180) ∧
            ∃ n : ℤ, d = rm.1.imu.yawAngle - rm.1.headlessYawRef + 360 * n) ∧
          (∀ (d' : ℝ) (n : ℤ), -180 ≤ d' → d' ≤ 180 →
            d' = rm.1.imu.yawAngle - rm.1.headlessYawRef + 360 * n →
            d' = d ∨ (|d'| = 180 ∧ d' = -d)) ∧
          rm.2.vx = truncZ (rm.1.pilot.vxCmd * Real.cos a - rm.1.pilot.vyCmd * Real.sin a) ∧
          rm.2.vy = truncZ (rm.1.pilot.vxCmd * Real.sin a + rm.1.pilot.vyCmd * Real.cos a) ∧
          rm.2.vx ^ 2 + rm.2.vy ^ 2 ≤ rm.1.pilot.vxCmd ^ 2 + rm.1.pilot.vyCmd ^ 2 ∧
          |rm.2.vx * Real.cos a + rm.2.vy * Real.sin a - rm.1.pilot.vxCmd| < 2 ∧
          |-(rm.2.vx * Real.sin a) + rm.2.vy * Real.cos a - rm.1.pilot.vyCmd| < 2) ∧
        (m = j → rm.1.pilot.mode ≠ .none →
          (rm.2.vx, rm.2.vy, rm.2.vr) =
            (rm.1.pilot.vxCmd, rm.1.pilot.vyCmd, rm.1.imu.vrFinal)) := by
  obtain ⟨rs, hrs, -⟩ := exists_runLoop realTrig inputs (LoopState.ok_init gzOffset gDeadzone)
  refine ⟨rs, hrs, fun j m rj rm hstretch hj hm => ?_⟩
  have href := headlessYawRef_eq hrs hstretch hj hm
  obtain ⟨r, hr, hon⟩ := hstretch.on m hstretch.le le_rfl
  obtain rfl : r = rm := Option.some.inj (hr.symm.trans hm)
  obtain ⟨i, -, hiter⟩ := iterates_of_run (LoopState.ok_init gzOffset gDeadzone) hrs hm
  refine ⟨href, fun hmode => ?_, fun hfirst hmode => ?_⟩
  · have hdrive := hiter.drive_eq.trans (driveCommand_headless hmode hon)
    simp only [Prod.mk.injEq] at hdrive
    obtain ⟨hvx, hvy, -⟩ := hdrive
    refine ⟨r.1.yawDelta, _, rfl, ⟨wrapAngle_mem _, wrapAngle_congr _⟩,
      fun d' n h₁ h₂ hd' => eq_wrapAngle h₁ h₂ hd', hvx, hvy, ?_⟩
    rw [hvx, hvy]
    exact ⟨rotated_norm_le _ _ _, rotated_back _ _ _⟩
  · subst hfirst
    obtain rfl : rj = r := Option.some.inj (hj.symm.trans hm)
    -- the reference has just been locked on the present yaw
    have hzero : rj.1.yawDelta = 0 := by
      rw [LoopState.yawDelta, href, sub_self, wrapAngle_of_mem (by norm_num) (by norm_num)]
    rw [hiter.drive_eq, driveCommand_headless hmode hon, hzero, zero_mul, zero_div, rotated_zero]

/-- A frame that drives without headless, and one that drives with it; then ten ticks of a turn in
each of two iterations without bytes. -/
def fieldInputs : List Input :=
  [.untimed (frontRead 65) 0 fun _ => .ofGz 0 0, .untimed (backRead 65) 0 fun _ => .ofGz 0 0,
    .untimed (frontRead 8) 0 fun _ => .ofGz 0 0, .untimed (backRead 8) 0 fun _ => .ofGz 0 0,
    .untimed silentRead 10 fun _ => .ofGz 0x7F 0xFF,
    .untimed silentRead 10 fun _ => .ofGz 0x7F 0xFF]

/-- From the second frame on the stick is read in the frame of the robot that has heard it. -/
theorem headless_run_field :
    ∃ rs, runLoop realTrig fieldInputs (.init 0 0) = .ok rs ∧ Stretch rs 3 5 ∧
      ∃ r₃ r₅, rs[3]? = some r₃ ∧ rs[5]? = some r₅ ∧ r₅.1.pilot.mode ≠ .none ∧
        r₅.1.pilot.vxCmd = -164 ∧ r₅.1.headlessYawRef = r₃.1.imu.yawAngle ∧
        r₅.2.vx ^ 2 + r₅.2.vy ^ 2 ≤ 164 ^ 2 := by
  obtain ⟨rs, hrs, hrun⟩ := headless_run 0 0 fieldInputs
  obtain ⟨rs', hrs', -⟩ := exists_runLoop .constant fieldInputs (LoopState.ok_init (0 : ℚ) 0)
  -- the pilot of the run, computed with rational numbers
  have hcheck : (match runLoop .constant fieldInputs (.init (0 : ℚ) 0) with
      | .ok rs => decide (rs.map (fun r => r.1.pilot.headlessMode) =
            [true, false, false, true, true, true]) &&
          rs[5]?.any fun r => decide (r.1.pilot.mode ≠ .none ∧ r.1.pilot.vxCmd = -164 ∧
            r.1.pilot.vyCmd = 0)
      | .error _ => false) = true := by
    decide +kernel
  rw [hrs'] at hcheck
  simp only [Bool.and_eq_true, Option.any_eq_true, decide_eq_true_eq] at hcheck
  obtain ⟨hheadless, r', hr', hmode, hvx, hvy⟩ := hcheck
  have hlen : rs.length = 6 := Machine.length_of_run hrs
  have hstart : SameRadio (LoopState.init (0 : ℝ) 0) (LoopState.init (0 : ℚ) 0) := ⟨rfl, rfl, rfl⟩
  have hsame : ∀ k (r : LoopState ℝ × Observation) (r' : LoopState ℚ × Observation),
      rs[k]? = some r → rs'[k]? = some r' → r.1.pilot = r'.1.pilot :=
    fun k r r' => pilot_eq_of_run hstart hrs hrs'
  have hon : ∀ (k : ℕ) b, [true, false, false, true, true, true][k]? = some b →
      ∃ r : LoopState ℝ × Observation, rs[k]? = some r ∧ r.1.pilot.headlessMode = b := by
    intro k b hb
    have hk : k < 6 := (List.getElem?_eq_some_iff.mp hb).1
    rw [← hheadless, List.getElem?_map] at hb
    obtain ⟨r', hr', rfl⟩ := Option.map_eq_some_iff.mp hb
    have hk' : k < rs.length := hlen ▸ hk
    have hr : rs[k]? = some rs[k] := List.getElem?_eq_getElem hk'
    exact ⟨_, hr, congrArg Pilot.headlessMode (hsame k _ r' hr hr')⟩
  have hstretch : Stretch rs 3 5 := by
    refine ⟨by decide, fun k hk hk' => hon k true ?_, .inr (hon 2 false rfl)⟩
    obtain rfl | rfl | rfl : k = 3 ∨ k = 4 ∨ k = 5 := by omega
    all_goals rfl
  obtain ⟨r₃, hr₃, -⟩ := hon 3 true rfl
  obtain ⟨r₅, hr₅, -⟩ := hon 5 true rfl
  have hpilot := hsame 5 r₅ r' hr₅ hr'
  rw [← hpilot] at hmode hvx hvy
  obtain ⟨href, hdrive, -⟩ := hrun 3 5 r₃ r₅ hstretch hr₃ hr₅
  obtain ⟨d, a, -, -, -, -, -, hnorm, -⟩ := hdrive hmode
  rw [hvx, hvy] at hnorm
  exact ⟨rs, hrs, hstretch, r₃, r₅, hr₃, hr₅, hmode, hvx, href, hnorm⟩
