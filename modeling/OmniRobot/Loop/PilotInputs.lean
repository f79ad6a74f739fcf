import OmniRobot.Crsf.Recovery
import OmniRobot.Loop.Spec
import OmniRobot.Reassembly.Walk

/-!
# What the pilot commands depend on

The mode, the headless flag and the commands are computed from the channels, the circle button and
the speed limit. The speed limit is set by a chain of tests on channels 10 and 11 that has no last
`else`: with both channels in the middle, from 1600 to 1800, and the button released, it stays as
some earlier iteration has left it.

## Main results

* `historyFree_of_condition`: where the limit is set anew, or no stick is out, the outcome does not
  depend on the history;
* `reaches_of_frame`: the button and one frame, for two histories;
* `pilot_historyFree_iff`: everywhere else the outcome does depend on the history.
-/

/-- The chain of tests leaves the speed limit as it was. -/
def SpeedHeld (values : ℕ → UInt16) (circle : Bool) : Prop :=
  circle = false ∧ (1600 ≤ values 10 ∧ values 10 ≤ 1800) ∧ 1600 ≤ values 11 ∧ values 11 ≤ 1800

instance (values : ℕ → UInt16) (circle : Bool) : Decidable (SpeedHeld values circle) :=
  inferInstanceAs (Decidable (_ ∧ _))

/-- The channels whose sticks the speed limit scales. -/
def Mode.speedChannels : Mode → List ℕ
  | .tuPilot => [1, 0, 3]
  | .phucPilot => [2, 3]
  | .none => []

/-- The speed limit is set anew, or no stick that it scales is out. -/
def SpeedIrrelevant (values : ℕ → UInt16) (circle : Bool) : Prop :=
  SpeedHeld values circle → ∀ c ∈ (selectMode values).speedChannels, Centred (values c)

instance (values : ℕ → UInt16) (circle : Bool) : Decidable (SpeedIrrelevant values circle) :=
  inferInstanceAs (Decidable (_ → _))

/-- The outcomes agree: mode, headless flag and commands. -/
def Pilot.SameOutcome (p₁ p₂ : Pilot) : Prop :=
  p₁.mode = p₂.mode ∧ p₁.headlessMode = p₂.headlessMode ∧ p₁.vxCmd = p₂.vxCmd ∧
    p₁.vyCmd = p₂.vyCmd ∧ p₁.vrCmd = p₂.vrCmd

/-! ### One update -/

theorem speedLimit_of_held {values : ℕ → UInt16} {circle : Bool} (h : SpeedHeld values circle)
    (speed : ℤ) : speedLimit values circle speed = speed := by
  obtain ⟨rfl, ⟨h₁₀, h₁₀'⟩, h₁₁, h₁₁'⟩ := h
  have hlow : ¬ (values 10 < 1100 ∧ values 11 < 1100) :=
    fun h => UInt16.not_lt.mpr h₁₀ (UInt16.lt_trans h.1 (by decide))
  have hmiddle : ¬ (values 10 < 1600 ∨ values 11 < 1600) :=
    fun h => h.elim (UInt16.not_lt.mpr h₁₀) (UInt16.not_lt.mpr h₁₁)
  have hhigh : ¬ (1800 < values 10 ∨ 1800 < values 11) :=
    fun h => h.elim (UInt16.not_lt.mpr h₁₀') (UInt16.not_lt.mpr h₁₁')
  unfold speedLimit
  rw [if_neg hlow, if_neg hmiddle, if_neg hhigh]
  rfl

theorem speedLimit_of_not_held {values : ℕ → UInt16} {circle : Bool}
    (h : ¬ SpeedHeld values circle) (speed speed' : ℤ) :
    speedLimit values circle speed = speedLimit values circle speed' := by
  unfold speedLimit
  dsimp only
  cases circle with
  | true => rfl
  | false =>
    simp only [Bool.false_eq_true, if_false]
    split_ifs with hlow hmiddle hhigh
    · rfl
    · rfl
    · rfl
    · -- no test has been met
      rw [not_or, UInt16.not_lt, UInt16.not_lt] at hmiddle hhigh
      exact absurd ⟨rfl, ⟨hmiddle.1, hhigh.1⟩, hmiddle.2, hhigh.2⟩ h

theorem speedLimit_bounds {speed : ℤ} (h : 0 ≤ speed ∧ speed ≤ 250) (values : ℕ → UInt16)
    (circle : Bool) :
    0 ≤ speedLimit values circle speed ∧ speedLimit values circle speed ≤ 250 := by
  unfold speedLimit
  dsimp only
  split_ifs <;> omega

@[simp] theorem Pilot.update_speed (values : ℕ → UInt16) (circle : Bool) (p : Pilot) :
    (p.update values circle).speed = speedLimit values circle p.speed := by
  unfold Pilot.update
  dsimp only
  split <;> rfl

@[simp] theorem Pilot.update_mode (values : ℕ → UInt16) (circle : Bool) (p : Pilot) :
    (p.update values circle).mode = selectMode values := by
  unfold Pilot.update
  dsimp only
  split <;> rfl

/-- The update reads sixteen channels. -/
theorem Pilot.update_congr {values values' : ℕ → UInt16} (h : ∀ c < 16, values c = values' c)
    (circle : Bool) (p : Pilot) : p.update values circle = p.update values' circle := by
  unfold Pilot.update speedLimit selectMode headlessSwitchCh
  simp only [h 0 (by decide), h 1 (by decide), h 2 (by decide), h 3 (by decide),
    h 5 (by decide), h 7 (by decide), h 10 (by decide), h 11 (by decide)]

/-- An update with the same channels and the same button has the same outcome, if the limit is the
same or no stick is out. -/
theorem sameOutcome_update {values : ℕ → UInt16} {circle : Bool} {p₁ p₂ : Pilot}
    (h : ∀ c ∈ (selectMode values).speedChannels,
      mapRC (values c) (speedLimit values circle p₁.speed) =
        mapRC (values c) (speedLimit values circle p₂.speed))
    (hmode : selectMode values ≠ .none) :
    (p₁.update values circle).SameOutcome (p₂.update values circle) := by
  unfold Pilot.update Pilot.SameOutcome
  cases hselect : selectMode values with
  | tuPilot =>
    rw [hselect] at h
    dsimp only
    refine ⟨rfl, rfl, h 1 ?_, h 0 ?_, h 3 ?_⟩ <;> simp [Mode.speedChannels]
  | phucPilot =>
    rw [hselect] at h
    dsimp only
    refine ⟨rfl, rfl, h 2 ?_, h 3 ?_, rfl⟩ <;> simp [Mode.speedChannels]
  | none => exact absurd hselect hmode

/-- Conversely, where an update has the same outcome the commands of all sticks agree. -/
theorem mapRC_of_sameOutcome {values : ℕ → UInt16} {circle : Bool} {p₁ p₂ : Pilot}
    (h : (p₁.update values circle).SameOutcome (p₂.update values circle)) :
    ∀ c ∈ (selectMode values).speedChannels,
      mapRC (values c) (speedLimit values circle p₁.speed) =
        mapRC (values c) (speedLimit values circle p₂.speed) := by
  unfold Pilot.update Pilot.SameOutcome at h
  cases hselect : selectMode values with
  | tuPilot =>
    simp only [hselect] at h
    intro c hc
    simp only [Mode.speedChannels, List.mem_cons, List.not_mem_nil, or_false] at hc
    rcases hc with rfl | rfl | rfl
    exacts [h.2.2.1, h.2.2.2.1, h.2.2.2.2]
  | phucPilot =>
    simp only [hselect] at h
    intro c hc
    simp only [Mode.speedChannels, List.mem_cons, List.not_mem_nil, or_false] at hc
    rcases hc with rfl | rfl
    exacts [h.2.2.1, h.2.2.2.1]
  | none => exact fun c hc => absurd hc List.not_mem_nil

/-! ### Runs -/

variable {F : Type} [Field F] [LinearOrder F] [IsStrictOrderedRing F] [FloorRing F]

/-- Some run from power-on ends an iteration that reads bytes with these sixteen channel values,
this state of the circle button and this outcome. -/
def Reaches (trig : Trig F) (values : ℕ → UInt16) (circle : Bool) (p : Pilot) : Prop :=
  ∃ (gzOffset gDeadzone : F) (inputs : List Input) (rs : List (LoopState F × Observation)) (k : ℕ)
    (i : Input) (r : LoopState F × Observation),
    runLoop trig inputs (.init gzOffset gDeadzone) = .ok rs ∧ inputs[k]? = some i ∧
      rs[k]? = some r ∧ i.serial.val ≠ [] ∧ i.buttons.circle = circle ∧
      (∀ c < 16, r.1.rc.values c = values c) ∧ r.1.pilot = p

/-- With these channel values and this button a pilot's outcome does not depend on the history. -/
def HistoryFree (trig : Trig F) (values : ℕ → UInt16) (circle : Bool) : Prop :=
  ∀ p₁ p₂, Reaches trig values circle p₁ → Reaches trig values circle p₂ → p₁.mode ≠ .none →
    p₁.SameOutcome p₂

/-- The speed limit stays between 0 and 250. -/
theorem speed_run {trig : Trig F} {gzOffset gDeadzone : F} {inputs : List Input}
    {rs : List (LoopState F × Observation)}
    (h : runLoop trig inputs (.init gzOffset gDeadzone) = .ok rs) :
    0 ≤ (Machine.final (.init gzOffset gDeadzone) rs).pilot.speed ∧
      (Machine.final (.init gzOffset gDeadzone) rs).pilot.speed ≤ 250 := by
  refine (runLoop_forall (P := fun s => 0 ≤ s.pilot.speed ∧ s.pilot.speed ≤ 250)
    (Q := fun _ => True) (fun i s r _ hs hiter => ⟨?_, trivial⟩) (LoopState.ok_init _ _)
    (show (0 : ℤ) ≤ 0 ∧ (0 : ℤ) ≤ 250 by decide) h).1
  by_cases hserial : i.serial.val = []
  · rw [(hiter.silent hserial).2.1]
    exact hs
  · rw [(hiter.heard hserial).1]
    rw [Pilot.update_speed]
    exact speedLimit_bounds hs _ _

/-- An outcome comes from an update with the values and the button, at some limit. -/
theorem exists_update_of_reaches {trig : Trig F} {values : ℕ → UInt16} {circle : Bool} {p : Pilot}
    (h : Reaches trig values circle p) :
    ∃ q : Pilot, (0 ≤ q.speed ∧ q.speed ≤ 250) ∧ p = q.update values circle := by
  obtain ⟨gzOffset, gDeadzone, inputs, rs, k, i, r, hrs, hi, hr, hserial, hcircle, hvalues, rfl⟩ :=
    h
  obtain ⟨i', hi', hiter⟩ := iterates_of_run (LoopState.ok_init gzOffset gDeadzone) hrs hr
  obtain rfl : i = i' := Option.some.inj (hi.symm.trans hi')
  refine ⟨_, speed_run (Machine.run_take hrs k), ?_⟩
  rw [(hiter.heard hserial).1, hcircle]
  exact Pilot.update_congr hvalues circle _

/-- Where the limit is set anew or no stick is out, the outcome does not depend on the history. -/
theorem historyFree_of_condition (trig : Trig F) {values : ℕ → UInt16} {circle : Bool}
    (h : SpeedIrrelevant values circle) : HistoryFree trig values circle := by
  intro p₁ p₂ h₁ h₂ hmode
  obtain ⟨q₁, hq₁, rfl⟩ := exists_update_of_reaches h₁
  obtain ⟨q₂, hq₂, rfl⟩ := exists_update_of_reaches h₂
  rw [Pilot.update_mode] at hmode
  refine sameOutcome_update (fun c hc => ?_) hmode
  by_cases hheld : SpeedHeld values circle
  · rw [speedLimit_of_held hheld, speedLimit_of_held hheld,
      mapRC_of_centred (h hheld c hc) hq₁.1 hq₁.2, mapRC_of_centred (h hheld c hc) hq₂.1 hq₂.2]
  · rw [speedLimit_of_not_held hheld q₁.speed q₂.speed]

/-! ### Two histories -/

namespace Crsf

variable {w : List UInt8} (hw : ValidFrame w)

include hw

theorem ValidFrame.isFrame : Reassembly.IsFrame protocol w := by
  obtain ⟨hlen, -, hlength, -⟩ := hw
  have h26 : (byteAt w 1).toNat + 2 = 26 := by rw [hlength]; rfl
  refine frameVerdict_eq_frame_iff.mpr ⟨?_, ?_, ?_, le_rfl⟩ <;> omega

/-- At power-on, a frame without its last byte is found and waited for. -/
theorem ValidFrame.feed_front :
    Reassembly.feed protocol .init (w.take 25) = (⟨true, w.take 25⟩, []) := by
  have hlen : (w.take 25).length = 25 := by
    rw [List.length_take, hw.1]
    rfl
  have hne : w.take 25 ≠ [] := List.ne_nil_of_length_pos (by rw [hlen]; decide)
  have hheader : protocol.header (w.take 25) = true := by
    change rcHeader _ = true
    rw [rcHeader_eq (by omega), byteAt_take w (by decide), byteAt_take w (by decide),
      decide_eq_true_iff]
    exact ⟨hw.2.2.1, hw.2.1⟩
  have hwait : protocol.verdict (w.take 25) = .wait := by
    apply Reassembly.verdict_of_prefix hw.isFrame (List.take_prefix 25 w)
    intro heq
    rw [heq, hw.1] at hlen
    cases hlen
  rw [Reassembly.feed_of_le hne (by simp [Reassembly.State.init, hlen]), Reassembly.scan,
    if_neg (by simp [Reassembly.State.init])]
  have hbuf : (Reassembly.State.init.push (w.take 25)).buf = w.take 25 := rfl
  rw [hbuf, Reassembly.seek_of_header hheader]
  simp only [Reassembly.scanSynced_of_wait hwait, Option.toList_none]

/-- With its last byte it is consumed. -/
theorem ValidFrame.feed_back :
    Reassembly.feed protocol ⟨true, w.take 25⟩ (w.drop 25) = (⟨true, []⟩, [.frame w]) := by
  have hlen : (w.drop 25).length = 1 := by
    rw [List.length_drop, hw.1]
  have hne : w.drop 25 ≠ [] := List.ne_nil_of_length_pos (by rw [hlen]; decide)
  rw [Reassembly.feed_of_le hne]
  · have hscan : Reassembly.scan protocol (Reassembly.State.push ⟨true, w.take 25⟩ (w.drop 25)) =
        (⟨true, []⟩, some (.frame w)) := by
      rw [Reassembly.scan, Reassembly.State.push_synced, if_pos rfl, Reassembly.State.push_buf,
        List.take_append_drop, Reassembly.scanSynced_of_frame hw.isFrame, List.drop_length,
        List.take_length]
    rw [hscan]
    rfl
  · rw [List.length_take, hw.1, hlen]
    decide

end Crsf

/-- An iteration that reads bytes feeds them to the parser. -/
theorem parser_of_loop {trig : Trig F} {i : Input} {s : LoopState F} {r : LoopState F × Observation}
    (hs : s.Ok) (h : loop trig i s = .ok r) (hserial : i.serial.val ≠ []) :
    r.1.parser.view = (Reassembly.feed Crsf.protocol s.parser.view i.serial.val).1 ∧
      r.1.rc = (Crsf.reports rcInputMaxChannels
        (Reassembly.feed Crsf.protocol s.parser.view i.serial.val).2 s.rc).1 := by
  obtain ⟨p', hview, -, hparse⟩ :=
    Crsf.crsfParse_eq rcInputMaxChannels i.serial.val s.rc hs.position_lt
  set decoded := Crsf.reports rcInputMaxChannels
    (Reassembly.feed Crsf.protocol s.parser.view i.serial.val).2 s.rc
  have hprepare : Crsf.crsfParse rcInputMaxChannels i.serial.val (prepare i s).parser
      (prepare i s).rc = .ok ⟨!decoded.2.isEmpty, p', decoded.1, decoded.2⟩ := hparse
  rw [loop, receive, if_neg hserial, hprepare, Crsf.ok_bind, Crsf.pure_eq_ok, Crsf.ok_bind] at h
  cases h
  rw [steer_eq]
  exact ⟨hview, rfl⟩

/-- A frame without its last byte is read, with the circle button pressed or not. -/
def firstRead (w : List UInt8) (circle : Bool) : Input :=
  { Input.untimed ⟨w.take 25, List.length_take_le _ _⟩ 0 fun _ => .ofGz 0 0 with
    buttons := { Buttons.released with circle := circle } }

/-- Its last byte is read, with the button released. -/
def secondRead {w : List UInt8} (hw : Crsf.ValidFrame w) : Input :=
  .untimed ⟨w.drop 25, by rw [List.length_drop, hw.1]; decide⟩ 0 fun _ => .ofGz 0 0

/-- The button decides with the first read which speed limit the second finds. -/
theorem reaches_of_frame (trig : Trig F) {w : List UInt8} (hw : Crsf.ValidFrame w)
    {values : ℕ → UInt16}
    (hvalues : ∀ c < 16, values c =
      Crsf.convertChannelValue (Crsf.rcChannel (Crsf.rcPayload w) c)) (circle : Bool) :
    ∃ q : Pilot, q.speed = (if circle then 250 else 114) ∧
      Reaches trig values false (q.update values false) := by
  have hok := LoopState.ok_init (0 : F) 0
  obtain ⟨r₁, hr₁, hiter₁⟩ := loop_iterates trig (firstRead w circle) hok
  obtain ⟨r₂, hr₂, hiter₂⟩ := loop_iterates trig (secondRead hw) hiter₁.ok
  have hfront : w.take 25 ≠ [] :=
    List.ne_nil_of_length_pos (by rw [List.length_take, hw.1]; decide)
  have hback : w.drop 25 ≠ [] :=
    List.ne_nil_of_length_pos (by rw [List.length_drop, hw.1]; decide)
  -- the first read leaves the channels at 0
  obtain ⟨hview₁, hrc₁⟩ := parser_of_loop hok hr₁ hfront
  have hfeed₁ : Reassembly.feed Crsf.protocol (LoopState.init (0 : F) 0).parser.view
      (firstRead w circle).serial.val = (⟨true, w.take 25⟩, []) := hw.feed_front
  rw [hfeed₁] at hview₁ hrc₁
  -- and the second decodes the frame
  obtain ⟨-, hrc₂⟩ := parser_of_loop hiter₁.ok hr₂ hback
  have hfeed₂ : Reassembly.feed Crsf.protocol ⟨true, w.take 25⟩ (secondRead hw).serial.val =
      (⟨true, []⟩, [.frame w]) := hw.feed_back
  rw [hview₁, hfeed₂] at hrc₂
  have hvalues₂ : ∀ c < 16, r₂.1.rc.values c = values c := by
    intro c hc
    rw [hrc₂, Crsf.reports, Crsf.report, if_pos hw.2, Crsf.reports, Crsf.writeChannels_values,
      if_pos (by exact lt_min (by exact hc.trans (by decide)) hc), hvalues c hc]
  refine ⟨r₁.1.pilot, ?_, 0, 0, [firstRead w circle, secondRead hw], [r₁, r₂], 1, secondRead hw,
    r₂, ?_, rfl, rfl, hback, rfl, hvalues₂, ?_⟩
  · rw [(hiter₁.heard hfront).1, hrc₁, Pilot.update_speed]
    cases circle <;> rfl
  · exact Machine.run_cons_eq_ok.mpr ⟨r₁, [r₂], hr₁,
      Machine.run_cons_eq_ok.mpr ⟨r₂, [], hr₂, rfl, rfl⟩, rfl⟩
  · rw [(hiter₂.heard hback).1]
    exact Pilot.update_congr hvalues₂ false _

/-- Where the limit is held and a stick is out, two runs that have decoded the same frame differ. -/
theorem not_historyFree (trig : Trig F) {w : List UInt8} (hw : Crsf.ValidFrame w)
    {values : ℕ → UInt16}
    (hvalues : ∀ c < 16, values c =
      Crsf.convertChannelValue (Crsf.rcChannel (Crsf.rcPayload w) c)) {circle : Bool}
    (h : ¬ SpeedIrrelevant values circle) : ¬ HistoryFree trig values circle := by
  intro hfree
  rw [SpeedIrrelevant, Classical.not_imp] at h
  obtain ⟨hheld, hout⟩ := h
  obtain ⟨rfl, -⟩ := id hheld
  obtain ⟨slow, hslow, hreach⟩ := reaches_of_frame trig hw hvalues false
  obtain ⟨fast, hfast, hreach'⟩ := reaches_of_frame trig hw hvalues true
  apply hout
  intro c hc
  by_contra hcentred
  have hmode : (slow.update values false).mode ≠ .none := by
    rw [Pilot.update_mode]
    intro hnone
    rw [hnone] at hc
    cases hc
  -- the same outcome would be the same command at both limits
  have hsame := mapRC_of_sameOutcome (hfree _ _ hreach hreach' hmode) c hc
  rw [speedLimit_of_held hheld, speedLimit_of_held hheld, hslow, hfast] at hsame
  exact mapRC_ne_of_not_centred hcentred hsame

/-- Pilot commands and the history. Where the speed limit is set anew, or no stick that it scales
is out, mode, headless flag and commands are functions of the sixteen channels and the circle
button: every two runs agree on them. For the channel values of any frame these are the only places
where they do: elsewhere a press of the button, long released, still drives the robot faster. -/
theorem pilot_historyFree_iff (trig : Trig F) (values : ℕ → UInt16) (circle : Bool) :
    (SpeedIrrelevant values circle → HistoryFree trig values circle) ∧
    ∀ w, Crsf.ValidFrame w →
      (∀ c < 16, values c = Crsf.convertChannelValue (Crsf.rcChannel (Crsf.rcPayload w) c)) →
      (HistoryFree trig values circle ↔ SpeedIrrelevant values circle) := by
  refine ⟨historyFree_of_condition trig, fun w hw hvalues => ⟨?_, historyFree_of_condition trig⟩⟩
  intro hfree
  by_contra hirrelevant
  exact not_historyFree trig hw hvalues hirrelevant hfree

/-- A frame with the pitch stick out, both speed switches in the middle, and the other sticks at
rest. -/
def pitchFrame : List UInt8 :=
  [0xC8, 24, 0x16,
    0xE0, 0x03, 0x32, 0xF8, 0xC0, 0x07, 0x3E, 0xF0, 0x81, 0x0F, 0x7C,
    0xE0, 0x03, 0x1F, 0x45, 0x29, 0x0A, 0x3E, 0xF0, 0x81, 0x0F, 0x7C, 0x37]

/-- Its channel values. -/
def pitchValues (c : ℕ) : UInt16 :=
  Crsf.convertChannelValue (Crsf.rcChannel (Crsf.rcPayload pitchFrame) c)

/-- While the button is pressed, the speed limit is set anew. -/
theorem pilot_historyFree_boost : HistoryFree Trig.constant pitchValues true :=
  ((pilot_historyFree_iff Trig.constant pitchValues true).2 pitchFrame (by decide +kernel)
    fun _ _ => rfl).mpr (by decide +kernel)

/-- Once it is released the frame drives at 114 or 250, whichever came before. -/
theorem pilot_history : ¬ HistoryFree Trig.constant pitchValues false :=
  not_historyFree Trig.constant (by decide +kernel : Crsf.ValidFrame pitchFrame)
    (fun _ _ => rfl) (by decide +kernel)
