import OmniRobot.Crsf.Messages
import OmniRobot.Loop.PilotInputs

/-!
# From the sticks to the wheels

A transmitter sends messages, and each iteration reads what has arrived of their bytes. From the
first byte on the pilot obeys the channels: in iterations without bytes, too, its mode, flag and
commands are those of the last message that has got through.

## Main results

* `parser_run`: the parser of a run is fed the bytes of all its reads;
* `obeys_run`: from the first byte on the pilot obeys the channels;
* `sticks_run`: what is driven, message by message.
-/

open Crsf (Message encodeMessages deliverMessages)

/-- The bytes that a list of iterations reads. -/
def bytesRead (inputs : List Input) : List UInt8 := (inputs.map fun i => i.serial.val).flatten

theorem bytesRead_take_succ {inputs : List Input} {k : ℕ} {i : Input} (hi : inputs[k]? = some i) :
    bytesRead (inputs.take (k + 1)) = bytesRead (inputs.take k) ++ i.serial.val := by
  rw [bytesRead, List.take_add_one, hi]
  simp [bytesRead]

theorem isPrefix_bytesRead_take (inputs : List Input) (k : ℕ) :
    bytesRead (inputs.take k) <+: bytesRead inputs := by
  obtain ⟨rest, hrest⟩ := List.take_prefix k inputs
  refine ⟨bytesRead rest, ?_⟩
  conv_rhs => rw [← hrest]
  simp [bytesRead]

/-! ### The parser of a run -/

section

variable {F : Type} [Field F] [LinearOrder F] [IsStrictOrderedRing F] [FloorRing F]

/-- An iteration without bytes leaves the parser and the channels alone. -/
theorem parser_of_silent_loop {trig : Trig F} {i : Input} {s : LoopState F}
    {r : LoopState F × Observation} (h : loop trig i s = .ok r) (hserial : i.serial.val = []) :
    r.1.parser = s.parser ∧ r.1.rc = s.rc := by
  have hreceive : receive i (prepare i s) = .ok (prepare i s, []) := if_pos hserial
  rw [loop, hreceive, Crsf.ok_bind] at h
  cases h
  rw [steer_eq]
  exact ⟨rfl, rfl⟩

/-- After any number of iterations, the parser has been fed the bytes of all their reads. -/
theorem parser_run {trig : Trig F} {inputs : List Input} {s : LoopState F}
    {rs : List (LoopState F × Observation)} (hs : s.Ok) (h : runLoop trig inputs s = .ok rs) {k : ℕ}
    (hk : k ≤ inputs.length) :
    ∃ es, Reassembly.Run Crsf.protocol s.parser.view (bytesRead (inputs.take k)) es
        (Machine.final s (rs.take k)).parser.view ∧
      (Machine.final s (rs.take k)).rc = (Crsf.reports rcInputMaxChannels es s.rc).1 := by
  have hstep : ∀ k i t r, inputs[k]? = some i →
      (LoopState.Ok t ∧ ∃ es, Reassembly.Run Crsf.protocol s.parser.view
        (bytesRead (inputs.take k)) es t.parser.view ∧
          t.rc = (Crsf.reports rcInputMaxChannels es s.rc).1) → loop trig i t = .ok r →
      LoopState.Ok r.1 ∧ ∃ es, Reassembly.Run Crsf.protocol s.parser.view
        (bytesRead (inputs.take (k + 1))) es r.1.parser.view ∧
          r.1.rc = (Crsf.reports rcInputMaxChannels es s.rc).1 := by
    rintro k i t r hi ⟨hok, es, hrun, hrc⟩ hr
    refine ⟨(iterates_of_loop hok hr).ok, ?_⟩
    rw [bytesRead_take_succ hi]
    by_cases hserial : i.serial.val = []
    · obtain ⟨hparser, hrc'⟩ := parser_of_silent_loop hr hserial
      rw [hserial, List.append_nil, hparser, hrc']
      exact ⟨es, hrun, hrc⟩
    · -- the read is fed to where the bytes before it have left the parser
      obtain ⟨hview, hrc'⟩ := parser_of_loop hok hr hserial
      have hfeed := Reassembly.feed_run (P := Crsf.protocol) t.parser.view i.serial.val (by
        rw [show t.parser.view.buf.length = _ from Crsf.length_front hok.position_lt.le]
        exact hok.position_lt)
      rw [← hview] at hfeed
      exact ⟨_, hrun.append hfeed, by rw [hrc', Crsf.reports_append, hrc]⟩
  exact (Machine.run_induction (P := fun k t => LoopState.Ok t ∧ ∃ es,
    Reassembly.Run Crsf.protocol s.parser.view (bytesRead (inputs.take k)) es t.parser.view ∧
      t.rc = (Crsf.reports rcInputMaxChannels es s.rc).1) hstep ⟨hs, [], .nil _, rfl⟩ h hk).2

end

/-! ### The pilot -/

/-- Mode, headless flag and commands are those of the channels, at the present speed limit. -/
structure Pilot.Obeys (values : ℕ → UInt16) (p : Pilot) : Prop where
  mode_eq : p.mode = selectMode values
  headlessMode_eq : p.headlessMode = decide (values 7 < 1200)
  tuPilot : p.mode = .tuPilot → p.vxCmd = mapRC (values 1) p.speed ∧
    p.vyCmd = mapRC (values 0) p.speed ∧ p.vrCmd = mapRC (values 3) p.speed
  phucPilot : p.mode = .phucPilot → p.vxCmd = mapRC (values 2) p.speed ∧
    p.vyCmd = mapRC (values 3) p.speed ∧ p.vrCmd = mapRC (values 0) 120

theorem Pilot.obeys_update (values : ℕ → UInt16) (circle : Bool) (p : Pilot) :
    (p.update values circle).Obeys values := by
  have hmode := Pilot.update_mode values circle p
  refine ⟨hmode, ?_, fun htu => ?_, fun hphuc => ?_⟩
  · unfold Pilot.update headlessSwitchCh
    dsimp only
    split <;> rfl
  · rw [hmode] at htu
    simp [Pilot.update, htu]
  · rw [hmode] at hphuc
    simp [Pilot.update, hphuc]

variable {F : Type} [Field F] [LinearOrder F] [IsStrictOrderedRing F] [FloorRing F]

/-- From the first byte on the pilot obeys the channels. -/
theorem obeys_run {trig : Trig F} {gzOffset gDeadzone : F} {inputs : List Input}
    {rs : List (LoopState F × Observation)}
    (h : runLoop trig inputs (.init gzOffset gDeadzone) = .ok rs) {k : ℕ}
    (hk : k ≤ inputs.length) (hbytes : bytesRead (inputs.take k) ≠ []) :
    (Machine.final (.init gzOffset gDeadzone) (rs.take k)).pilot.Obeys
      (Machine.final (.init gzOffset gDeadzone) (rs.take k)).rc.values := by
  refine runLoop_induction (P := fun k s => bytesRead (inputs.take k) ≠ [] →
    s.pilot.Obeys s.rc.values) (fun k i s r hi _ hs hiter hne => ?_)
    (LoopState.ok_init gzOffset gDeadzone) (fun hne => absurd rfl hne) h hk hbytes
  rw [bytesRead_take_succ hi] at hne
  by_cases hserial : i.serial.val = []
  · -- nothing is read, and nothing changes
    obtain ⟨hdecodes, hpilot, -⟩ := hiter.silent hserial
    rw [hiter.rc_eq, hdecodes, hpilot]
    exact hs (by simpa [hserial] using hne)
  · rw [(hiter.heard hserial).1]
    exact Pilot.obeys_update _ _ _

/-- What is driven of the commands without headless. -/
theorem driveCommand_of_direct (trig : Trig F) {s : LoopState F}
    (h : s.pilot.headlessMode = false) (hmode : s.pilot.mode ≠ .none) :
    driveCommand trig s = (s.pilot.vxCmd, s.pilot.vyCmd, s.imu.vrFinal) := by
  simp [driveCommand, h, hmode]

/-- The channels that command a translation forwards and to the side. -/
def Mode.sticks : Mode → Option (ℕ × ℕ)
  | .tuPilot => some (1, 0)
  | .phucPilot => some (2, 3)
  | .none => Option.none

/-- The wheels follow the sticks. Let the bytes that a run from power-on reads, in whatever portions
they arrive, be a front of the bytes of some messages, the first of them with channels. Then after
any iteration from the first byte on, all but the last 29 bytes or fewer have got through as whole
messages, and the pilot obeys the channels these messages leave. Without a pilot mode nothing is
driven; in a mode, and without headless, what is driven is the position of its two sticks, scaled
by the present speed limit. -/
theorem sticks_run (trig : Trig F) (gzOffset gDeadzone : F) (inputs : List Input)
    (ms : List Message) (hfirst : ∃ address codes rest, ms = .rc address codes :: rest)
    (hread : bytesRead inputs <+: encodeMessages ms) :
    ∃ rs, runLoop trig inputs (.init gzOffset gDeadzone) = .ok rs ∧ ∀ n r, rs[n]? = some r →
      bytesRead (inputs.take (n + 1)) ≠ [] →
      ∃ k ≤ ms.length, encodeMessages (ms.take k) <+: bytesRead (inputs.take (n + 1)) ∧
        (bytesRead (inputs.take (n + 1))).length < (encodeMessages (ms.take k)).length + 30 ∧
        r.1.pilot.Obeys (deliverMessages rcInputMaxChannels (ms.take k) .init).values ∧
        (r.1.pilot.mode = .none → r.2.vx = 0 ∧ r.2.vy = 0 ∧ r.2.vr = 0) ∧
        ∀ cx cy, r.1.pilot.mode.sticks = some (cx, cy) → r.1.pilot.headlessMode = false →
          r.2.vx = mapRC ((deliverMessages rcInputMaxChannels (ms.take k) .init).values cx)
            r.1.pilot.speed ∧
          r.2.vy = mapRC ((deliverMessages rcInputMaxChannels (ms.take k) .init).values cy)
            r.1.pilot.speed := by
  have hok := LoopState.ok_init gzOffset gDeadzone
  obtain ⟨rs, hrs, -⟩ := exists_runLoop trig inputs hok
  refine ⟨rs, hrs, fun n r hr hbytes => ?_⟩
  have hn : n + 1 ≤ inputs.length :=
    Machine.length_of_run hrs ▸ (List.getElem?_eq_some_iff.mp hr).1
  obtain ⟨i, -, hiter⟩ := iterates_of_run hok hrs hr
  have hobeys := obeys_run hrs hn hbytes
  obtain ⟨es, hrun, hrc⟩ := parser_run hok hrs hn
  rw [Machine.final_take_succ hr] at hobeys hrun hrc
  -- the parser has taken the first messages
  have hexpects : Crsf.Expects ms (LoopState.init gzOffset gDeadzone).parser.view :=
    ⟨List.nil_prefix, .inr hfirst⟩
  obtain ⟨k, hk, rfl, hrest⟩ :=
    hexpects.run hrun ((isPrefix_bytesRead_take inputs (n + 1)).trans hread)
  have hvalues : r.1.rc = deliverMessages rcInputMaxChannels (ms.take k) .init :=
    hrc.trans (Crsf.reports_messages _ _ _)
  rw [hvalues] at hobeys
  have hbuf := hrun.length_lt (Nat.zero_lt_succ _)
  have hlen := congrArg List.length hrest
  refine ⟨k, hk, ⟨r.1.parser.view.buf, hrest⟩, ?_, hobeys, fun hmode => ?_,
    fun cx cy hsticks hheadless => ?_⟩
  · rw [List.length_append, List.length_append] at hlen
    have hempty : (LoopState.init gzOffset gDeadzone).parser.view.buf.length = 0 := rfl
    rw [hempty] at hlen
    rw [Crsf.protocol_capacity] at hbuf
    omega
  · have hdrive : driveCommand trig r.1 = (0, 0, 0) := by simp [driveCommand, hmode]
    rw [← hiter.drive_eq] at hdrive
    simpa using hdrive
  · have hmode : r.1.pilot.mode ≠ .none := by
      intro hnone
      rw [hnone] at hsticks
      cases hsticks
    have hdrive := hiter.drive_eq
    rw [driveCommand_of_direct trig hheadless hmode, Prod.mk.injEq, Prod.mk.injEq] at hdrive
    rw [hdrive.1, hdrive.2.1]
    -- the commands are those of the two sticks of the mode
    cases hcase : r.1.pilot.mode with
    | tuPilot =>
      rw [hcase] at hsticks
      cases hsticks
      exact ⟨(hobeys.tuPilot hcase).1, (hobeys.tuPilot hcase).2.1⟩
    | phucPilot =>
      rw [hcase] at hsticks
      cases hsticks
      exact ⟨(hobeys.phucPilot hcase).1, (hobeys.phucPilot hcase).2.1⟩
    | none => exact absurd hcase hmode

/-- Two messages with all channels centred. -/
def centreMessages : List Message := [.rc 0xC8 .centre, .rc 0xC8 .centre]

/-- Up to 25 of their bytes. -/
def centreRead (n : ℕ) : { l : List UInt8 // l.length ≤ sbusBufferSize } :=
  ⟨((encodeMessages centreMessages).drop n).take 25, List.length_take_le _ _⟩

/-- Three iterations that read all of them. -/
def centreInputs : List Input :=
  [.untimed (centreRead 0) 0 fun _ => .ofGz 0 0, .untimed (centreRead 25) 0 fun _ => .ofGz 0 0,
    .untimed (centreRead 50) 0 fun _ => .ofGz 0 0]

/-- At least one of the two messages has got through in the end. -/
theorem sticks_run_centre :
    ∃ rs, runLoop .constant centreInputs (.init (0 : ℚ) 0) = .ok rs ∧
      ∀ r, rs[2]? = some r → ∃ k, 1 ≤ k ∧ k ≤ 2 ∧ r.1.pilot.Obeys
        (deliverMessages rcInputMaxChannels (centreMessages.take k) .init).values := by
  have hread : bytesRead centreInputs = encodeMessages centreMessages := by decide +kernel
  have hlen : (bytesRead centreInputs).length = 52 := by decide +kernel
  have hne : bytesRead (centreInputs.take 3) ≠ [] :=
    List.ne_nil_of_length_pos (Nat.lt_of_lt_of_eq (by decide) hlen.symm)
  obtain ⟨rs, hrs, hrun⟩ := sticks_run .constant (0 : ℚ) 0 centreInputs centreMessages
    ⟨_, _, _, rfl⟩ (by rw [hread])
  refine ⟨rs, hrs, fun r hr => ?_⟩
  obtain ⟨k, hk, -, hrest, hobeys, -⟩ := hrun 2 r hr hne
  -- 52 bytes are more than the buffer holds
  have hpos : 1 ≤ k := by
    by_contra hzero
    obtain rfl : k = 0 := by omega
    have hshort : (bytesRead centreInputs).length < 0 + 30 := hrest
    omega
  exact ⟨k, hpos, hk, hobeys⟩
