import OmniRobot.Loop.ServoToggle
import OmniRobot.Timing.Clock

/-!
# From the buttons to the servo driver

`Notify` toggles four servos by the buttons of the PS3 controller, and `loop()` hands the positions
of all five to the PCA9685 at most every 5 ms of a clock that wraps after 72 minutes.

## Main results

* `ps3Servo_run`: where a servo is after any number of iterations;
* `write_lastRun`: one write, in terms of the time;
* `pulses_run`: what the driver has been told, and how old it is.
-/

open Timing (reading lastRun RunsAt Polls)

/-! ### Toggles -/

/-- Where a servo is after `n` presses. -/
def togglePosition (openPos closePos : ℤ) (n : ℕ) : ℤ :=
  if n = 0 then 0 else if n % 2 = 1 then openPos else closePos

/-- A press moves the servo on, if its two positions can be told apart. -/
theorem togglePosition_succ {openPos closePos : ℤ} (hzero : openPos ≠ 0) (hne : closePos ≠ openPos)
    (n : ℕ) : (if togglePosition openPos closePos n = openPos then closePos else openPos) =
      togglePosition openPos closePos (n + 1) := by
  rcases Nat.eq_zero_or_pos n with rfl | hpos
  · -- the position at power-on counts as closed
    exact if_neg hzero.symm
  · rcases Nat.mod_two_eq_zero_or_one n with h | h
    · have hclose : togglePosition openPos closePos n = closePos := by
        rw [togglePosition, if_neg hpos.ne', if_neg (by omega)]
      rw [hclose, if_neg hne, togglePosition, if_neg (by omega), if_pos (by omega)]
    · have hopen : togglePosition openPos closePos n = openPos := by
        rw [togglePosition, if_neg hpos.ne', if_pos h]
      rw [hopen, if_pos rfl, togglePosition, if_neg (by omega), if_neg (by omega)]

/-- The servos toggled by a button of the PS3 controller. -/
inductive Ps3Servo where
  | leftMid
  | rightMid
  | up
  | down
  deriving DecidableEq, Repr

namespace Ps3Servo

/-- The button of a servo. -/
def button : Ps3Servo → Buttons → Bool
  | leftMid => Buttons.r1
  | rightMid => Buttons.l1
  | up => Buttons.r2
  | down => Buttons.l2

/-- Its position. -/
def pos : Ps3Servo → Servos → ℤ
  | leftMid => Servos.leftMidPos
  | rightMid => Servos.rightMidPos
  | up => Servos.upPos
  | down => Servos.downPos

/-- The level of its button at the last call of `Notify`. -/
def prev : Ps3Servo → Servos → Bool
  | leftMid => Servos.leftMidPrev
  | rightMid => Servos.rightMidPrev
  | up => Servos.upPrev
  | down => Servos.downPrev

/-- Its open position. -/
def openPos : Ps3Servo → ℤ
  | down => servoOpen - 200
  | _ => servoOpen

/-- Its close position. -/
def closePos : Ps3Servo → ℤ
  | leftMid => servoClose + 300
  | up => servoClose + 100
  | _ => servoClose

/-- Its channel of the PCA9685. -/
def channel : Ps3Servo → ℕ
  | leftMid => 14
  | rightMid => 13
  | up => 12
  | down => 11

theorem openPos_ne_zero (v : Ps3Servo) : v.openPos ≠ 0 := by
  cases v <;> decide

theorem closePos_ne_openPos (v : Ps3Servo) : v.closePos ≠ v.openPos := by
  cases v <;> decide

/-- `Notify` toggles each servo by its own button. -/
theorem notify_eq (v : Ps3Servo) (b : Buttons) (s : Servos) :
    (v.pos (s.notify b), v.prev (s.notify b)) =
      updateServoToggle (v.button b) (v.prev s) (v.pos s) v.openPos v.closePos := by
  cases v <;> rfl

/-- The write of the pulses and the toggle of the middle servo leave it alone. -/
theorem write_eq (v : Ps3Servo) (nowUs : UInt32) (s : Servos) :
    v.pos (s.write nowUs) = v.pos s ∧ v.prev (s.write nowUs) = v.prev s := by
  unfold Servos.write
  cases v <;> split_ifs <;> exact ⟨rfl, rfl⟩

theorem toggleMid_eq (v : Ps3Servo) (values : ℕ → UInt16) (s : Servos) :
    v.pos (s.toggleMid values) = v.pos s ∧ v.prev (s.toggleMid values) = v.prev s := by
  cases v <;> exact ⟨rfl, rfl⟩

/-- The levels of its button. -/
def levels (v : Ps3Servo) (inputs : List Input) : List Bool :=
  inputs.map fun i => v.button i.buttons

/-- The servo is where its button has put it. -/
structure Tracks (v : Ps3Servo) (inputs : List Input) (s : Servos) : Prop where
  prev_eq : v.prev s = (v.levels inputs).getLast?.getD false
  pos_eq : v.pos s =
    togglePosition v.openPos v.closePos (risingEdges false (v.levels inputs))

theorem Tracks.notify {v : Ps3Servo} {inputs : List Input} {s : Servos} (h : v.Tracks inputs s)
    (i : Input) : v.Tracks (inputs ++ [i]) (s.notify i.buttons) := by
  have hlevels : v.levels (inputs ++ [i]) = v.levels inputs ++ [v.button i.buttons] :=
    List.map_append
  have hnotify := Prod.ext_iff.mp (v.notify_eq i.buttons s)
  constructor
  · rw [hlevels, List.getLast?_append]
    exact hnotify.2
  · rw [hlevels, risingEdges_append, ← h.prev_eq]
    refine hnotify.1.trans ?_
    change (if v.button i.buttons && !v.prev s then
      if v.pos s = v.openPos then v.closePos else v.openPos else v.pos s) = _
    rw [h.pos_eq, togglePosition_succ v.openPos_ne_zero v.closePos_ne_openPos]
    split_ifs <;> rfl

theorem Tracks.write {v : Ps3Servo} {inputs : List Input} {s : Servos} (h : v.Tracks inputs s)
    (nowUs : UInt32) : v.Tracks inputs (s.write nowUs) :=
  ⟨(v.write_eq nowUs s).2.trans h.prev_eq, (v.write_eq nowUs s).1.trans h.pos_eq⟩

theorem Tracks.toggleMid {v : Ps3Servo} {inputs : List Input} {s : Servos} (h : v.Tracks inputs s)
    (values : ℕ → UInt16) : v.Tracks inputs (s.toggleMid values) :=
  ⟨(v.toggleMid_eq values s).2.trans h.prev_eq, (v.toggleMid_eq values s).1.trans h.pos_eq⟩

end Ps3Servo

/-! ### Writes -/

/-- The pulses for the positions. -/
def Servos.positions (s : Servos) : ℕ → Option ℤ
  | 15 => some s.midPos
  | 14 => some s.leftMidPos
  | 13 => some s.rightMidPos
  | 12 => some s.upPos
  | 11 => some s.downPos
  | _ => none

theorem Ps3Servo.positions_channel (v : Ps3Servo) (s : Servos) :
    s.positions v.channel = some (v.pos s) := by
  cases v <;> rfl

/-- All servos have the same channels. -/
theorem Servos.positions_or (s s' : Servos) :
    (fun channel => (s.positions channel).or (s'.positions channel)) = s.positions := by
  funext channel
  unfold Servos.positions
  split <;> rfl

/-- One write: all pulses or none. -/
theorem Servos.write_pulses (nowUs : UInt32) (s : Servos) :
    (s.write nowUs).pulses =
      if 5000 ≤ nowUs - s.lastUpdateUs then
        fun channel => (s.positions channel).or (s.pulses channel)
      else s.pulses := by
  unfold Servos.write
  split_ifs
  · funext channel
    unfold Servos.positions
    dsimp only
    split
    case h_6 => simp [*]
    all_goals rfl
  · rfl

theorem Servos.write_lastUpdateUs (nowUs : UInt32) (s : Servos) :
    (s.write nowUs).lastUpdateUs =
      if 5000 ≤ nowUs - s.lastUpdateUs then nowUs else s.lastUpdateUs := by
  unfold Servos.write
  split_ifs <;> rfl

/-- What the driver has been told before the poll `n`: nothing yet, or the positions `told j` of
the last poll `j` at which the loop has written. -/
def Told (T : ℕ → ℕ) (told : ℕ → Servos) (n : ℕ) (pulses : ℕ → Option ℤ) : Prop :=
  ((∀ j < n, ¬ RunsAt 5000 T j) ∧ pulses = fun _ => none) ∨
    ∃ j < n, RunsAt 5000 T j ∧ (∀ l, j < l → l < n → ¬ RunsAt 5000 T l) ∧
      pulses = (told j).positions

/-- The register and the pulses after the poll `n`. -/
theorem write_lastRun {T : ℕ → ℕ} (hT : Polls 5000 T) {n : ℕ} {told : ℕ → Servos} {s : Servos}
    (hnow : told n = s) (hlast : s.lastUpdateUs = reading (lastRun 5000 T n))
    (htold : Told T told n s.pulses) :
    (s.write (reading (T n))).lastUpdateUs = reading (lastRun 5000 T (n + 1)) ∧
      Told T told (n + 1) (s.write (reading (T n))).pulses := by
  have hperiod : (5000 : UInt32).toNat = 5000 := rfl
  rw [Servos.write_lastUpdateUs, Servos.write_pulses, hlast,
    Timing.reading_lastRun_succ hT (by decide) hperiod]
  refine ⟨rfl, ?_⟩
  by_cases hruns : RunsAt 5000 T n
  · -- a write replaces all pulses
    rw [if_pos ((Timing.period_le_reading_iff hT (by decide) hperiod n).mpr hruns)]
    refine .inr ⟨n, Nat.lt_succ_self n, hruns, fun l hl hl' => by omega, ?_⟩
    rcases htold with ⟨-, hnone⟩ | ⟨j, -, -, -, hj⟩
    · rw [hnone, hnow]
      exact funext fun channel => Option.or_none
    · rw [hj, hnow, Servos.positions_or]
  · rw [if_neg (mt (Timing.period_le_reading_iff hT (by decide) hperiod n).mp hruns)]
    have hlater : ∀ l < n + 1, l = n ∨ l < n := fun l hl => by omega
    rcases htold with ⟨hnone, hpulses⟩ | ⟨j, hj, hjruns, hnone, hpulses⟩
    · refine .inl ⟨fun l hl => ?_, hpulses⟩
      rcases hlater l hl with rfl | hl
      exacts [hruns, hnone l hl]
    · refine .inr ⟨j, Nat.lt_succ_of_lt hj, hjruns, fun l hl hl' => ?_, hpulses⟩
      rcases hlater l hl' with rfl | hl'
      exacts [hruns, hnone l hl hl']

/-! ### Runs -/

section

variable {F : Type} [Field F] [LinearOrder F] [IsStrictOrderedRing F] [FloorRing F]
  {trig : Trig F} {gzOffset gDeadzone : F} {inputs : List Input}
  {rs : List (LoopState F × Observation)}

/-- The servos after an iteration: `Notify`, the write, and nothing else that the buttons or the
driver see. -/
theorem Iterates.servos_eq {i : Input} {s : LoopState F} {r : LoopState F × Observation}
    (h : Iterates trig i s r) :
    r.1.servos = (s.servos.notify i.buttons).write i.nowUsServo ∨
      ∃ values, r.1.servos = ((s.servos.notify i.buttons).write i.nowUsServo).toggleMid values := by
  by_cases hserial : i.serial.val = []
  · exact .inl (h.silent hserial).2.2
  · exact .inr ⟨_, (h.heard hserial).2⟩

/-- Each servo is where the presses of its button have put it. -/
theorem ps3Servo_run (v : Ps3Servo) (h : runLoop trig inputs (.init gzOffset gDeadzone) = .ok rs)
    {k : ℕ} (hk : k ≤ inputs.length) :
    v.Tracks (inputs.take k) (Machine.final (.init gzOffset gDeadzone) (rs.take k)).servos := by
  refine runLoop_induction (P := fun k s => v.Tracks (inputs.take k) s.servos)
    (fun k i s r hi _ hs hiter => ?_) (LoopState.ok_init gzOffset gDeadzone) ?_ h hk
  · have hprepared := (hs.notify i).write i.nowUsServo
    rw [List.take_add_one, hi]
    rcases hiter.servos_eq with hservos | ⟨values, hservos⟩
    · rw [hservos]
      exact hprepared
    · rw [hservos]
      exact hprepared.toggleMid values
  · cases v <;> exact ⟨rfl, rfl⟩

/-- The middle servo is where the decoded frames have put it. -/
theorem tracks_run (h : runLoop trig inputs (.init gzOffset gDeadzone) = .ok rs) :
    (Machine.final (.init gzOffset gDeadzone) rs).Tracks (midLevels rs) := by
  have hstep : ∀ i s r levels, LoopState.Tracks s levels → loop trig i s = .ok r →
      r.1.Tracks (levels ++ r.2.midLevels) :=
    fun i s r levels hs hr => loop_tracks (iterates_of_loop hs.ok hr) hs
  have hinit : (LoopState.init gzOffset gDeadzone).Tracks [] :=
    ⟨LoopState.ok_init gzOffset gDeadzone, rfl, rfl, rfl⟩
  have hrefines := Machine.run_refines_observed
    (fun levels o => levels ++ o.midLevels) hstep hinit h
  rwa [List.foldl_append_eq_append, List.nil_append, List.map_map] at hrefines

/-- The servos as the write of iteration `j` finds them. -/
def toldAt (inputs : List Input) (s : LoopState F) (rs : List (LoopState F × Observation))
    (j : ℕ) : Servos :=
  (Machine.final s (rs.take j)).servos.notify ((inputs[j]?.map Input.buttons).getD .released)

/-- The register and the pulses of a run. -/
theorem told_run {T : ℕ → ℕ} (hT : Polls 5000 T)
    (hclock : ∀ k i, inputs[k]? = some i → i.nowUsServo = reading (T k))
    (h : runLoop trig inputs (.init gzOffset gDeadzone) = .ok rs) {k : ℕ}
    (hk : k ≤ inputs.length) :
    (Machine.final (.init gzOffset gDeadzone) (rs.take k)).servos.lastUpdateUs =
        reading (lastRun 5000 T k) ∧
      Told T (toldAt inputs (.init gzOffset gDeadzone) rs) k
        (Machine.final (.init gzOffset gDeadzone) (rs.take k)).servos.pulses := by
  induction k with
  | zero => exact ⟨rfl, .inl ⟨fun j hj => absurd hj (Nat.not_lt_zero j), rfl⟩⟩
  | succ k ih =>
    obtain ⟨hlast, htold⟩ := ih (Nat.le_of_succ_le hk)
    have hlt : k < rs.length := by
      rw [Machine.length_of_run h]
      exact hk
    have hr : rs[k]? = some rs[k] := List.getElem?_eq_getElem hlt
    obtain ⟨i, hi, hiter⟩ := iterates_of_run (LoopState.ok_init gzOffset gDeadzone) h hr
    have hnow : toldAt inputs (.init gzOffset gDeadzone) rs k =
        (Machine.final (.init gzOffset gDeadzone) (rs.take k)).servos.notify i.buttons := by
      rw [toldAt, hi]
      rfl
    rw [Machine.final_take_succ hr]
    -- `Notify` changes neither the register nor the pulses
    have hwrite := write_lastRun hT hnow hlast htold
    rw [← hclock k i hi] at hwrite
    rcases hiter.servos_eq with hservos | ⟨values, hservos⟩
    · rw [hservos]
      exact hwrite
    · rw [hservos]
      exact hwrite

end

/-- From the buttons to the driver. Let the loop come round at times that are at most a turn of the
clock less 5 ms apart, and let `micros()` show the time at each servo write. Then in every run from
power-on, after iteration `k` the PCA9685 has either been told nothing, and no 5 ms have passed; or
it was last told in some iteration `j`, less than 5 ms ago, and holds what was then up to date: for
the four servos of the PS3 controller the position that all presses up to iteration `j` have led to,
and for the middle servo the one of the frames decoded before. The other channels are never
written. -/
theorem pulses_run {F : Type} [Field F] [LinearOrder F] [IsStrictOrderedRing F] [FloorRing F]
    (trig : Trig F) (gzOffset gDeadzone : F) (inputs : List Input) {T : ℕ → ℕ} (hT : Polls 5000 T)
    (hclock : ∀ k i, inputs[k]? = some i → i.nowUsServo = reading (T k)) :
    ∃ rs, runLoop trig inputs (.init gzOffset gDeadzone) = .ok rs ∧ ∀ k r, rs[k]? = some r →
      ((∀ j ≤ k, ¬ RunsAt 5000 T j) ∧ T k < 5000 ∧ ∀ channel, r.1.servos.pulses channel = none) ∨
      ∃ j ≤ k, RunsAt 5000 T j ∧ (∀ l, j < l → l ≤ k → ¬ RunsAt 5000 T l) ∧ T k < T j + 5000 ∧
        r.1.servos.pulses 15 = some (midPosition (risingEdges false (midLevels (rs.take j)))) ∧
        (∀ v : Ps3Servo, r.1.servos.pulses v.channel = some (togglePosition v.openPos v.closePos
          (risingEdges false (v.levels (inputs.take (j + 1)))))) ∧
        ∀ channel, channel ∉ [15, 14, 13, 12, 11] → r.1.servos.pulses channel = none := by
  obtain ⟨rs, hrs, -⟩ := exists_runLoop trig inputs (LoopState.ok_init gzOffset gDeadzone)
  refine ⟨rs, hrs, fun k r hr => ?_⟩
  have hlen := Machine.length_of_run hrs
  have hk : k < inputs.length := hlen ▸ (List.getElem?_eq_some_iff.mp hr).1
  obtain ⟨-, htold⟩ := told_run hT hclock hrs hk
  rw [Machine.final_take_succ hr] at htold
  have hage : T k - lastRun 5000 T (k + 1) < 5000 :=
    Timing.sub_lastRun_succ_lt (by decide) k
  rcases htold with ⟨hnone, hpulses⟩ | ⟨j, hj, hruns, hnone, hpulses⟩
  · refine .inl ⟨fun j hj => hnone j (Nat.lt_succ_of_le hj), ?_, fun channel => by rw [hpulses]⟩
    rcases Timing.exists_lastRun 5000 T (k + 1) with ⟨-, hzero⟩ | ⟨j, hj, hruns, -, -⟩
    · omega
    · exact absurd hruns (hnone j hj)
  · have hjk : j ≤ k := Nat.le_of_lt_succ hj
    refine .inr ⟨j, hjk, hruns, fun l hl hl' => hnone l hl (Nat.lt_succ_of_le hl'), ?_, ?_, ?_, ?_⟩
    · -- the last run before the next poll was at this one
      rcases Timing.exists_lastRun 5000 T (k + 1) with
        ⟨hnever, -⟩ | ⟨j', hj', hruns', hnone', hlast⟩
      · exact absurd hruns (hnever j hj)
      · have hsame : j' = j := by
          rcases Nat.lt_trichotomy j j' with hlt | heq | hgt
          · exact absurd hruns' (hnone j' hlt hj')
          · exact heq.symm
          · exact absurd hruns (hnone' j hgt hj)
        rw [hlast, hsame] at hage
        omega
    · rw [hpulses]
      have hmid := (tracks_run (Machine.run_take hrs j)).servos.pos_eq
      exact congrArg some hmid
    · intro v
      have hi : inputs[j]? = some inputs[j] := List.getElem?_eq_getElem (hjk.trans_lt hk)
      have htracks := (ps3Servo_run v hrs (hjk.trans hk.le)).notify inputs[j]
      have htake : inputs.take (j + 1) = inputs.take j ++ [inputs[j]] := by
        rw [List.take_add_one, hi]
        rfl
      rw [hpulses, Ps3Servo.positions_channel, htake, ← htracks.pos_eq, toldAt, hi]
      rfl
    · intro channel hchannel
      rw [hpulses]
      simp only [List.mem_cons, List.not_mem_nil, or_false, not_or] at hchannel
      unfold Servos.positions
      split
      case h_6 => rfl
      all_goals simp at hchannel

/-- The button of the left servo, held for two iterations 3 ms apart. -/
def heldInputs : List Input :=
  [3000, 6000].map fun nowUs =>
    { Input.untimed silentRead 0 (fun _ => .ofGz 0 0) with
      buttons := { Buttons.released with r1 := true }
      nowUsServo := nowUs }

/-- The second iteration writes, and the press has counted once. -/
theorem pulses_run_held :
    ∃ rs, runLoop .constant heldInputs (.init (0 : ℚ) 0) = .ok rs ∧ ∀ r, rs[1]? = some r →
      r.1.servos.pulses 14 = some servoOpen ∧ r.1.servos.pulses 13 = some 0 := by
  have hT : Polls 5000 fun k => 3000 * (k + 1) :=
    ⟨by decide, fun n => by omega, fun n => by omega⟩
  have hclock : ∀ k i, heldInputs[k]? = some i → i.nowUsServo = reading (3000 * (k + 1)) := by
    intro k i hi
    have hk : k < 2 := (List.getElem?_eq_some_iff.mp hi).1
    rcases Nat.lt_succ_iff_lt_or_eq.mp hk with hk | rfl
    · obtain rfl : k = 0 := by omega
      obtain rfl := Option.some.inj hi
      rfl
    · obtain rfl := Option.some.inj hi
      rfl
  obtain ⟨rs, hrs, hrun⟩ := pulses_run .constant (0 : ℚ) 0 heldInputs hT hclock
  refine ⟨rs, hrs, fun r hr => ?_⟩
  rcases hrun 1 r hr with ⟨hnone, -⟩ | ⟨j, hj, hruns, -, -, -, hservos, -⟩
  · exact absurd (by decide) (hnone 1 le_rfl)
  · have hfirst : ¬ RunsAt 5000 (fun k => 3000 * (k + 1)) 0 := by decide
    have hj1 : j = 1 := by
      by_contra hne
      obtain rfl : j = 0 := by omega
      exact hfirst hruns
    subst hj1
    exact ⟨hservos .leftMid, hservos .rightMid⟩
