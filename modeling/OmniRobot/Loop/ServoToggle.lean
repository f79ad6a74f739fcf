import OmniRobot.Loop.Spec

/-!
# The middle servo

`loop()` evaluates the toggle of the middle servo after every read, whether or not the read
completed a frame. Between two frames the channels stay as they were, so the toggle sees the same
level again and does nothing: it advances once for each rising edge among the decoded frames.

## Main results

* `toggleMid_tracks`: one evaluation, for a new level or an old one;
* `loop_tracks`: one iteration;
* `servoMidPos_run`: at most one decode each, and the position after any number of iterations.
-/

/-- How often a sequence of levels rises, after the level `prev`. -/
def risingEdges (prev : Bool) : List Bool → ℕ
  | [] => 0
  | b :: bs => (if b && !prev then 1 else 0) + risingEdges b bs

theorem risingEdges_append (prev : Bool) (bs : List Bool) (b : Bool) :
    risingEdges prev (bs ++ [b]) =
      risingEdges prev bs + if b && !(bs.getLast?.getD prev) then 1 else 0 := by
  induction bs generalizing prev with
  | nil => simp [risingEdges]
  | cons c bs ih =>
    rw [List.cons_append, risingEdges, risingEdges, ih, List.getLast?_cons, Nat.add_assoc]
    cases bs.getLast? <;> rfl

/-- The position of the middle servo after `n` presses. -/
def midPosition (n : ℕ) : ℤ :=
  if n = 0 then 0 else if n % 2 = 1 then servoOpen - 100 else servoClose + 320

/-- A press moves the servo on. -/
theorem midPosition_succ (n : ℕ) :
    (if midPosition n = servoOpen - 100 then servoClose + 320 else servoOpen - 100) =
      midPosition (n + 1) := by
  have hne : servoClose + 320 ≠ servoOpen - 100 := by decide
  rcases Nat.eq_zero_or_pos n with rfl | hpos
  · -- the position at power-on counts as closed
    rfl
  · -- the two positions differ, so the toggle can tell them apart
    rcases Nat.mod_two_eq_zero_or_one n with h | h
    · have hclose : midPosition n = servoClose + 320 := by
        rw [midPosition, if_neg hpos.ne', if_neg (by omega)]
      have hopen : midPosition (n + 1) = servoOpen - 100 := by
        rw [midPosition, if_neg (by omega), if_pos (by omega)]
      rw [hclose, if_neg hne, hopen]
    · have hopen : midPosition n = servoOpen - 100 := by
        rw [midPosition, if_neg hpos.ne', if_pos h]
      have hclose : midPosition (n + 1) = servoClose + 320 := by
        rw [midPosition, if_neg (by omega), if_neg (by omega)]
      rw [hopen, if_pos rfl, hclose]

/-- The level of the switch on channel 9. -/
def midLevel (out : Crsf.RcOutput) : Bool := 1500 < out.values 9

/-- The servo and its level are those after a sequence of levels. -/
structure ServoTracks (levels : List Bool) (servos : Servos) : Prop where
  prev_eq : servos.midPrev = levels.getLast?.getD false
  pos_eq : servos.midPos = midPosition (risingEdges false levels)

theorem ServoTracks.prepare {levels : List Bool} {servos : Servos} (h : ServoTracks levels servos)
    (b : Buttons) (nowUs : UInt32) : ServoTracks levels ((servos.notify b).write nowUs) := by
  unfold Servos.write
  split_ifs
  · exact ⟨h.prev_eq, h.pos_eq⟩
  · exact ⟨h.prev_eq, h.pos_eq⟩

/-- The toggle follows a new level, -/
theorem toggleMid_tracks {levels : List Bool} {servos : Servos} (h : ServoTracks levels servos)
    (out : Crsf.RcOutput) :
    ServoTracks (levels ++ [midLevel out]) (servos.toggleMid out.values) := by
  constructor
  · rw [List.getLast?_append]
    rfl
  · rw [risingEdges_append, ← h.prev_eq]
    change (if midLevel out && !servos.midPrev then
      if servos.midPos = servoOpen - 100 then servoClose + 320 else servoOpen - 100
      else servos.midPos) = _
    rw [h.pos_eq, midPosition_succ]
    split_ifs <;> rfl

/-- and is not moved by an old one. -/
theorem toggleMid_stutters {levels : List Bool} {servos : Servos} (h : ServoTracks levels servos)
    {out : Crsf.RcOutput} (hlevel : midLevel out = levels.getLast?.getD false) :
    ServoTracks levels (servos.toggleMid out.values) := by
  have hnext := toggleMid_tracks h out
  rw [hlevel] at hnext
  refine ⟨?_, ?_⟩
  · rw [hnext.prev_eq, List.getLast?_append]
    rfl
  · rw [hnext.pos_eq, risingEdges_append]
    cases levels.getLast?.getD false <;> rfl

variable {F : Type} [Field F] [LinearOrder F] [IsStrictOrderedRing F] [FloorRing F]

/-- The levels of the frames decoded in an iteration. -/
def Observation.midLevels (o : Observation) : List Bool :=
  o.decodes.map fun d => midLevel d.out

/-- The channels, the servo and its level are those after a sequence of levels. -/
structure LoopState.Tracks (s : LoopState F) (levels : List Bool) : Prop where
  ok : s.Ok
  level_eq : midLevel s.rc = levels.getLast?.getD false
  servos : ServoTracks levels s.servos

/-- One iteration tracks the frames it decodes. -/
theorem loop_tracks {trig : Trig F} {i : Input} {s : LoopState F} {r : LoopState F × Observation}
    (h : Iterates trig i s r) {levels : List Bool} (hs : s.Tracks levels) :
    r.1.Tracks (levels ++ r.2.midLevels) := by
  have hprepare := hs.servos.prepare i.buttons i.nowUsServo
  have hle := h.decodes_le
  cases hdecodes : r.2.decodes with
  | nil =>
    have hrc : r.1.rc = s.rc := by rw [h.rc_eq, hdecodes]; rfl
    have hlevels : r.2.midLevels = [] := by rw [Observation.midLevels, hdecodes]; rfl
    rw [hlevels, List.append_nil]
    -- the channels are those of an earlier frame, and the toggle has seen their level
    refine ⟨h.ok, by rw [hrc, hs.level_eq], ?_⟩
    by_cases hserial : i.serial.val = []
    · rw [(h.silent hserial).2.2]
      exact hprepare
    · rw [(h.heard hserial).2, hrc]
      exact toggleMid_stutters hprepare hs.level_eq
  | cons d ds =>
    have hds : ds = [] := by
      rw [hdecodes, List.length_cons] at hle
      exact List.eq_nil_of_length_eq_zero (by omega)
    subst hds
    -- one frame, and the loop sees its channels before it reads again
    have hrc : r.1.rc = d.out := h.rc_of_mem (by rw [hdecodes]; exact List.mem_singleton_self d)
    have hlevels : r.2.midLevels = [midLevel d.out] := by
      rw [Observation.midLevels, hdecodes]
      rfl
    have hserial : i.serial.val ≠ [] := by
      intro hnil
      rw [(h.silent hnil).1] at hdecodes
      cases hdecodes
    rw [hlevels]
    refine ⟨h.ok, by rw [hrc, List.getLast?_append]; rfl, ?_⟩
    rw [(h.heard hserial).2, hrc]
    exact toggleMid_tracks hprepare d.out

/-- The levels of all frames decoded in a run. -/
def midLevels (rs : List (LoopState F × Observation)) : List Bool :=
  (rs.map fun r => r.2.midLevels).flatten

/-- No decoded frame is skipped and every press toggles once. In every run from power-on each
iteration decodes at most one frame and leaves its channels for the loop to see, and the middle
servo is where as many presses as the decoded levels have rising edges have moved it: at 0 before
the first, at the open position after an odd number, and at the close position after an even
one. -/
theorem servoMidPos_run (trig : Trig F) (gzOffset gDeadzone : F) (inputs : List Input) :
    ∃ rs, runLoop trig inputs (.init gzOffset gDeadzone) = .ok rs ∧
      (∀ r ∈ rs, r.2.decodes.length ≤ 1 ∧ ∀ d ∈ r.2.decodes, r.1.rc = d.out) ∧
      (Machine.final (.init gzOffset gDeadzone) rs).servos.midPos =
        midPosition (risingEdges false (midLevels rs)) := by
  have hok := LoopState.ok_init gzOffset gDeadzone
  obtain ⟨rs, hrs, -⟩ := exists_runLoop trig inputs hok
  refine ⟨rs, hrs, ?_, ?_⟩
  · have hstep : ∀ i s r, s.Ok → True → Iterates trig i s r →
        True ∧ (r.2.decodes.length ≤ 1 ∧ ∀ d ∈ r.2.decodes, r.1.rc = d.out) :=
      fun i s r _ _ h => ⟨trivial, h.decodes_le, fun d hd => h.rc_of_mem hd⟩
    exact fun r hr => ((runLoop_forall hstep hok trivial hrs).2 r hr).2
  · -- the servo refines the list of levels, which each iteration extends by what it decodes
    have hstep : ∀ i s r levels, LoopState.Tracks s levels → loop trig i s = .ok r →
        r.1.Tracks (levels ++ r.2.midLevels) :=
      fun i s r levels hs hr => loop_tracks (iterates_of_loop hs.ok hr) hs
    have hinit : (LoopState.init gzOffset gDeadzone).Tracks [] := ⟨hok, rfl, rfl, rfl⟩
    have hrefines := Machine.run_refines_observed
      (fun levels o => levels ++ o.midLevels) hstep hinit hrs
    rw [List.foldl_append_eq_append, List.nil_append, List.map_map] at hrefines
    exact hrefines.servos.pos_eq

/-- A frame with channel 9 high, in two reads, and a byte of the next one. -/
def pressInputs : List Input :=
  [.untimed (frontRead 40) 0 fun _ => .ofGz 0 0,
    .untimed (backRead 40) 0 fun _ => .ofGz 0 0,
    .untimed ⟨[0xC8], by decide⟩ 0 fun _ => .ofGz 0 0]

/-- The press counts once, though two reads see it. -/
theorem servoMidPos_run_press :
    ∃ rs, runLoop .constant pressInputs (.init (0 : ℚ) 0) = .ok rs ∧
      (Machine.final (.init 0 0) rs).servos.midPos = servoOpen - 100 := by
  obtain ⟨rs, hrs, -, hpos⟩ := servoMidPos_run .constant (0 : ℚ) 0 pressInputs
  have hcheck : (match runLoop .constant pressInputs (.init (0 : ℚ) 0) with
      | .ok rs => decide (midLevels rs = [true])
      | .error _ => false) = true := by
    decide +kernel
  rw [hrs, decide_eq_true_eq] at hcheck
  refine ⟨rs, hrs, ?_⟩
  rw [hpos, hcheck]
  rfl
