import OmniRobot.Loop.Spec

/-!
# The rotation driven

`drive_omni` gets the rotation from `vr_final`, which `imu_update` writes once for each tick. An
iteration that processes a tick drives the rotation of its own mode: the turn stick, or the PID of
yaw hold. An iteration that processes none drives the rotation of an earlier one, in whatever mode
that was.

## Main results

* `rotatesFor_step`: an iteration that processes a tick;
* `rotation_run`: every iteration of a run, by the last one that has processed a tick;
* `rotation_stale`: a turn stick without a tick.
-/

variable {F : Type} [Field F] [LinearOrder F] [IsStrictOrderedRing F] [FloorRing F]

/-- The rotation is the one for the mode of an iteration from `s` to `s'`: the turn command while
the pilot turns, and otherwise what the last call of `compute_yaw_pid` has returned. That call is
the one for the last burst, `buf`. Its target is that of the iteration, its yaw the one after `buf`,
and its memory what the ticks before have left in `m`. -/
def LoopState.RotatesFor (i : Input) (s s' : LoopState F) (vr : ℤ) : Prop :=
  (20 < |s'.pilot.vrCmd| → vr = s'.pilot.vrCmd) ∧
    (¬ 20 < |s'.pilot.vrCmd| → s'.imu.yawHoldEnabled = true ∧
      ∃ bufs buf m, (i.claim s.imu.imuTickPending).1 = bufs ++ [buf] ∧
        m = bufs.foldl (imuTick true s'.imu.yawTarget s'.pilot.vrCmd)
          { s.imu with
            imuTickPending := (i.claim s.imu.imuTickPending).2
            yawHoldEnabled := true } ∧
        s'.imu.yawAngle = m.nextYaw buf ∧
        computeYawPid s'.imu.yawTarget s'.imu.yawAngle
            { m with gImu := s'.imu.gImu, yawAngle := s'.imu.yawAngle } =
          (vr, { s'.imu with vrFinal := m.vrFinal }))

/-- The iteration at place `k` of a run from `s` processes a tick. -/
def TickedAt (inputs : List Input) (s : LoopState F) (rs : List (LoopState F × Observation))
    (k : ℕ) : Prop :=
  ∃ i, inputs[k]? = some i ∧
    (i.claim (Machine.final s (rs.take k)).imu.imuTickPending).1 ≠ []

/-! ### One iteration -/

/-- Without a tick the IMU stage leaves the rotation. -/
theorem imuStage_vrFinal {i : Input} {imu : Imu F} (h : (i.claim imu.imuTickPending).1 = [])
    (vrCmd : ℤ) : (imuStage i vrCmd imu).vrFinal = imu.vrFinal := by
  rw [imuStage_eq, h, List.foldl_nil]
  unfold switchYawHold
  split_ifs <;> rfl

/-- While yaw hold is on, the IMU stage leaves the target. -/
theorem imuStage_yawTarget (i : Input) {vrCmd : ℤ} (h : ¬ 20 < |vrCmd|) (imu : Imu F) :
    (imuStage i vrCmd imu).yawTarget = imu.yawTarget :=
  (imuStage_hold i h imu).settings.yawTarget_eq

/-- A tick with yaw hold on ends with a call of `compute_yaw_pid`. -/
theorem computeYawPid_of_imuTick (target : F) (vrCmd : ℤ) (m : Imu F) (buf : Burst) :
    computeYawPid target (m.nextYaw buf)
        { m with
          gImu := (imuTick true target vrCmd m buf).gImu
          yawAngle := m.nextYaw buf } =
      ((imuTick true target vrCmd m buf).vrFinal,
        { imuTick true target vrCmd m buf with vrFinal := m.vrFinal }) := rfl

/-- An iteration that processes a tick ends with the rotation for its mode. -/
theorem rotatesFor_step {trig : Trig F} {i : Input} {s : LoopState F}
    {r : LoopState F × Observation} (h : Iterates trig i s r)
    (hticks : (i.claim s.imu.imuTickPending).1 ≠ []) :
    LoopState.RotatesFor i s r.1 r.1.imu.vrFinal := by
  have himu := h.imu_eq
  constructor
  · intro hturn
    rw [himu, (imuStage_stick i hturn s.imu).2, if_neg hticks]
  · intro hhold
    have hheld := imuStage_hold i hhold s.imu
    rw [← himu] at hheld
    refine ⟨hheld.settings.yawHoldEnabled_eq, ?_⟩
    -- the stage ends with the tick of the last burst
    obtain ⟨bufs, buf, hbufs⟩ := (List.eq_nil_or_concat _).resolve_left hticks
    rw [List.concat_eq_append] at hbufs
    have hswitch : switchYawHold r.1.pilot.vrCmd s.imu =
        { s.imu with yawHoldEnabled := true } := if_neg hhold
    rw [imuStage_eq, hbufs, List.foldl_append, List.foldl_cons, List.foldl_nil, hswitch] at himu
    have htarget : r.1.imu.yawTarget = s.imu.yawTarget := hheld.settings.yawTarget_eq
    refine ⟨bufs, buf, _, hbufs, rfl, ?_⟩
    rw [htarget, himu]
    exact ⟨rfl, computeYawPid_of_imuTick _ _ _ _⟩

/-! ### Runs -/

section Run

variable {trig : Trig F} {inputs : List Input} {s : LoopState F}
  {rs : List (LoopState F × Observation)} (hs : s.Ok) (hrs : runLoop trig inputs s = .ok rs)

include hs hrs

/-- From one hold to the next the target stays. -/
theorem yawTarget_run {j : ℕ} {r' : LoopState F × Observation} (hr' : rs[j]? = some r') {k : ℕ}
    (hjk : j ≤ k) {r : LoopState F × Observation} (hr : rs[k]? = some r)
    (hhold : ∀ l r'', j < l → l ≤ k → rs[l]? = some r'' → ¬ 20 < |r''.1.pilot.vrCmd|) :
    r.1.imu.yawTarget = r'.1.imu.yawTarget := by
  induction k, hjk using Nat.le_induction generalizing r with
  | base =>
    obtain rfl : r' = r := Option.some.inj (hr'.symm.trans hr)
    rfl
  | succ k hjk ih =>
    have hk : k < rs.length := Nat.lt_of_succ_lt (List.getElem?_eq_some_iff.mp hr).1
    have hprev : rs[k]? = some rs[k] := List.getElem?_eq_getElem hk
    obtain ⟨i, -, hiter⟩ := iterates_of_run hs hrs hr
    rw [hiter.imu_eq, imuStage_yawTarget i (hhold (k + 1) r (by omega) le_rfl hr),
      Machine.final_take_succ hprev]
    exact ih hprev fun l r'' hl hl' => hhold l r'' hl (hl'.trans (Nat.le_succ k))

/-- `vr_final` is the rotation of the last iteration that has processed a tick. -/
theorem vrFinal_run {k : ℕ} {r : LoopState F × Observation} (hr : rs[k]? = some r) :
    (∀ j ≤ k, ¬ TickedAt inputs s rs j) ∧ r.1.imu.vrFinal = s.imu.vrFinal ∨
      ∃ j ≤ k, ∃ i' r', inputs[j]? = some i' ∧ rs[j]? = some r' ∧ TickedAt inputs s rs j ∧
        (∀ l, j < l → l ≤ k → ¬ TickedAt inputs s rs l) ∧
        LoopState.RotatesFor i' (Machine.final s (rs.take j)) r'.1 r.1.imu.vrFinal := by
  have hk := (List.getElem?_eq_some_iff.mp hr).1
  have hplace : ∀ m < k + 1, ∃ r', rs[m]? = some r' :=
    fun m hm => ⟨_, List.getElem?_eq_getElem (Nat.lt_of_lt_of_le hm hk)⟩
  -- only ticks write `vr_final`
  have hkeep : ∀ m < k + 1, ¬ TickedAt inputs s rs m →
      (Machine.final s (rs.take (m + 1))).imu.vrFinal =
        (Machine.final s (rs.take m)).imu.vrFinal := by
    intro m hm hticked
    obtain ⟨r', hr'⟩ := hplace m hm
    obtain ⟨i, hi, hiter⟩ := iterates_of_run hs hrs hr'
    have hnone : (i.claim (Machine.final s (rs.take m)).imu.imuTickPending).1 = [] := by
      by_contra hne
      exact hticked ⟨i, hi, hne⟩
    rw [Machine.final_take_succ hr', hiter.imu_eq]
    exact imuStage_vrFinal hnone _
  have hlast : (Machine.final s (rs.take (k + 1))).imu.vrFinal = r.1.imu.vrFinal := by
    rw [Machine.final_take_succ hr]
  rcases Machine.exists_last_write (fun m => (Machine.final s (rs.take m)).imu.vrFinal) hkeep with
    ⟨hnone, hreg⟩ | ⟨j, hj, hticked, hnone, hreg⟩
  · exact .inl ⟨fun j hj => hnone j (Nat.lt_succ_of_le hj), hlast.symm.trans hreg⟩
  · right
    obtain ⟨r', hr'⟩ := hplace j hj
    obtain ⟨i, hi, hiter⟩ := iterates_of_run hs hrs hr'
    obtain ⟨i', hi', hne⟩ := id hticked
    obtain rfl : i = i' := Option.some.inj (hi.symm.trans hi')
    have hvr : r.1.imu.vrFinal = r'.1.imu.vrFinal := by
      rw [← hlast, ← Machine.final_take_succ (s := s) hr']
      exact hreg
    refine ⟨j, Nat.le_of_lt_succ hj, i, r', hi, hr', hticked,
      fun l hl hl' => hnone l hl (Nat.lt_succ_of_le hl'), ?_⟩
    rw [hvr]
    exact rotatesFor_step hiter hne

end Run

/-- The rotation belongs to the last iteration that has processed a tick. In every run from
power-on, an iteration with a mode that processes a tick drives the rotation for its own mode. One
that processes none drives the rotation of the last iteration before it that has processed one, or
0 if there is none; and if yaw hold has been on ever since, the target is still the one of that
iteration. -/
theorem rotation_run (trig : Trig F) (gzOffset gDeadzone : F) (inputs : List Input) :
    ∃ rs, runLoop trig inputs (.init gzOffset gDeadzone) = .ok rs ∧
      ∀ k i r, inputs[k]? = some i → rs[k]? = some r → r.1.pilot.mode ≠ .none →
        (TickedAt inputs (.init gzOffset gDeadzone) rs k →
          LoopState.RotatesFor i (Machine.final (.init gzOffset gDeadzone) (rs.take k)) r.1
            r.2.vr) ∧
        ((∀ j ≤ k, ¬ TickedAt inputs (.init gzOffset gDeadzone) rs j) ∧ r.2.vr = 0 ∨
          ∃ j ≤ k, ∃ i' r', inputs[j]? = some i' ∧ rs[j]? = some r' ∧
            TickedAt inputs (.init gzOffset gDeadzone) rs j ∧
            (∀ l, j < l → l ≤ k → ¬ TickedAt inputs (.init gzOffset gDeadzone) rs l) ∧
            LoopState.RotatesFor i' (Machine.final (.init gzOffset gDeadzone) (rs.take j)) r'.1
              r.2.vr ∧
            ((∀ l r'', j < l → l ≤ k → rs[l]? = some r'' → ¬ 20 < |r''.1.pilot.vrCmd|) →
              r.1.imu.yawTarget = r'.1.imu.yawTarget)) := by
  have hinit := LoopState.ok_init gzOffset gDeadzone
  obtain ⟨rs, hrs, -⟩ := exists_runLoop trig inputs hinit
  refine ⟨rs, hrs, fun k i r hi hr hmode => ?_⟩
  have hzero : (LoopState.init gzOffset gDeadzone).imu.vrFinal = 0 := rfl
  generalize LoopState.init gzOffset gDeadzone = s at hinit hrs hzero ⊢
  -- with a mode, `vr_final` is what is driven
  obtain ⟨_, -, hiter⟩ := iterates_of_run hinit hrs hr
  have hvr : r.2.vr = r.1.imu.vrFinal := by
    have hdrive := hiter.drive_eq
    unfold driveCommand at hdrive
    dsimp only at hdrive
    rw [if_pos hmode] at hdrive
    split_ifs at hdrive <;> exact congrArg (fun p => p.2.2) hdrive
  rw [hvr]
  rcases vrFinal_run hinit hrs hr with
    ⟨hnone, hkeep⟩ | ⟨j, hj, i', r', hi', hr', hticked, hnone, hrot⟩
  · exact ⟨fun hk => absurd hk (hnone k le_rfl), .inl ⟨hnone, hkeep.trans hzero⟩⟩
  · refine ⟨fun hk => ?_, .inr ⟨j, hj, i', r', hi', hr', hticked, hnone, hrot,
      yawTarget_run hinit hrs hr' hj hr⟩⟩
    -- a tick in this iteration is the last one
    have hjk : j = k := by
      by_contra hne
      exact hnone k (by omega) le_rfl hk
    subst hjk
    obtain rfl : i = i' := Option.some.inj (hi.symm.trans hi')
    obtain rfl : r = r' := Option.some.inj (hr.symm.trans hr')
    exact hrot

/-- A frame that turns, cut before its last byte, and no tick. -/
def turnWithoutTick : List Input :=
  [.untimed (frontRead 65) 0 fun _ => .ofGz 0 0, .untimed (backRead 65) 0 fun _ => .ofGz 0 0]

/-- The last byte of a frame that lets go of the turn stick, and ten ticks while the robot turns. -/
def holdInput : Input := .untimed (backRead 8) 10 fun _ => .ofGz 0x7F 0xFF

/-- The turn of that frame, a tick after it, and then yaw hold. -/
def turnThenLetGo : List Input :=
  turnWithoutTick ++ [.untimed silentRead 1 fun _ => .ofGz 0 0,
    .untimed (frontRead 8) 0 fun _ => .ofGz 0 0, holdInput]

theorem rotation_run_tick :
    ∃ rs, runLoop .constant turnThenLetGo (.init (0 : ℚ) 0) = .ok rs ∧
      ∃ r r', rs[2]? = some r ∧ rs[4]? = some r' ∧
        20 < |r.1.pilot.vrCmd| ∧ r.2.vr = r.1.pilot.vrCmd ∧
        ¬ 20 < |r'.1.pilot.vrCmd| ∧ r'.2.vr ≠ 0 ∧
        LoopState.RotatesFor holdInput (Machine.final (.init 0 0) (rs.take 4)) r'.1 r'.2.vr := by
  obtain ⟨rs, hrs, hrun⟩ := rotation_run .constant (0 : ℚ) 0 turnThenLetGo
  -- both iterations have a mode and process a tick
  have hcheck : (match runLoop .constant turnThenLetGo (.init (0 : ℚ) 0) with
      | .ok rs =>
        (rs[2]?.any fun r => decide (r.1.pilot.mode ≠ .none ∧ 20 < |r.1.pilot.vrCmd|)) &&
          (rs[4]?.any fun r => decide (r.1.pilot.mode ≠ .none ∧ ¬ 20 < |r.1.pilot.vrCmd| ∧
            r.2.vr ≠ 0)) &&
          [2, 4].all fun k => turnThenLetGo[k]?.any fun i => decide
            ((i.claim (Machine.final (.init 0 0) (rs.take k)).imu.imuTickPending).1.length ≠ 0)
      | .error _ => false) = true := by
    decide +kernel
  rw [hrs] at hcheck
  simp only [Bool.and_eq_true, Option.any_eq_true, decide_eq_true_eq, List.all_eq_true] at hcheck
  obtain ⟨⟨⟨r, hr, hmode, hturn⟩, r', hr', hmode', hhold, hne⟩, hticks⟩ := hcheck
  have hticked : ∀ k ∈ [2, 4], TickedAt turnThenLetGo (.init 0 0) rs k := by
    intro k hk
    obtain ⟨i, hi, hlen⟩ := hticks k hk
    exact ⟨i, hi, fun hnil => hlen (by rw [hnil, List.length_nil])⟩
  refine ⟨rs, hrs, r, r', hr, hr', hturn, ?_, hhold, hne, ?_⟩
  · exact ((hrun 2 _ r rfl hr hmode).1 (hticked 2 (by decide))).1 hturn
  · exact (hrun 4 _ r' rfl hr' hmode').1 (hticked 4 (by decide))

/-- The turn command of a run without a tick is not driven. -/
theorem rotation_stale :
    ¬ ∀ (trig : Trig ℚ) (gzOffset gDeadzone : ℚ) (inputs : List Input)
        (rs : List (LoopState ℚ × Observation)),
      runLoop trig inputs (.init gzOffset gDeadzone) = .ok rs →
        ∀ (k : ℕ) (r : LoopState ℚ × Observation), rs[k]? = some r → r.1.pilot.mode ≠ .none →
          20 < |r.1.pilot.vrCmd| → r.2.vr = r.1.pilot.vrCmd := by
  intro h
  have hcheck : (match runLoop .constant turnWithoutTick (.init (0 : ℚ) 0) with
      | .ok rs => rs[1]?.any fun r => decide (r.1.pilot.mode ≠ .none ∧ 20 < |r.1.pilot.vrCmd| ∧
          r.2.vr ≠ r.1.pilot.vrCmd)
      | .error _ => false) = true := by
    decide +kernel
  split at hcheck
  next rs hrs =>
    obtain ⟨r, hr, hlast⟩ := (Option.any_eq_true _ _).mp hcheck
    obtain ⟨hmode, hturn, hne⟩ := of_decide_eq_true hlast
    exact hne (h _ _ _ _ _ hrs 1 r hr hmode hturn)
  · cases hcheck
