import OmniRobot.Crsf.Soundness
import OmniRobot.Machine.Run

/-!
# Safety and progress of the parser

`parsePasses` is the `while` loop of `crsf_parse` with a record of each of its iterations. A record
shows what the loop does in between: how many bytes an iteration has copied, where it has left
`current_frame_position`, and what it has done to the outputs.

## Main results

* `parsePasses_fst`: the records change nothing;
* `parsePasses_safe`: one call, from any state that leaves room in the buffer;
* `crsfParse_safe`: any calls, each with a `max_channels` of its own.
-/

namespace Crsf

/-! ### Iterations -/

/-- One iteration of the `while` loop of `crsf_parse`. -/
structure Pass where
  /-- `current_len`, and with 0 the "no progress" branch. -/
  currentLen : ℕ
  /-- `current_frame_position` after `crsf_parse_buffer`. -/
  position : ℕ
  before : RcOutput
  after : RcOutput

/-- `parseLoop`, with a record of each iteration. -/
def parsePasses (maxChannels : UInt16) (frame : List UInt8) (r : ParseResult) :
    Checked (ParseResult × List Pass) :=
  if 0 < frame.length then do
    let room ← usub sizeofCrsfFrame r.parser.currentFramePosition
    let currentLen := min frame.length room
    let mem ← memcpy r.parser.crsfFrame r.parser.currentFramePosition (frame.take currentLen)
    let position := r.parser.currentFramePosition + currentLen
    if _h : currentLen = 0 then
      return ({ r with ret := false, parser := ⟨mem, 0, .unsynced⟩ },
        [⟨currentLen, 0, r.out, r.out⟩])
    else
      let (p, out, decode) ←
        crsfParseBuffer maxChannels ⟨mem, position, r.parser.parserState⟩ r.out
      let (r', passes) ← parsePasses maxChannels (frame.drop currentLen)
        ⟨r.ret || decode.isSome, p, out, r.decodes ++ decode.toList⟩
      return (r', ⟨currentLen, p.currentFramePosition, r.out, out⟩ :: passes)
  else return (r, [])
termination_by frame.length
decreasing_by
  simp only [List.length_drop]
  omega

/-- The records change nothing. -/
theorem parsePasses_fst (maxChannels : UInt16) (frame : List UInt8) (r : ParseResult) :
    (parsePasses maxChannels frame r).map Prod.fst = parseLoop maxChannels frame r := by
  rw [parsePasses, parseLoop]
  by_cases hne : 0 < frame.length
  · rw [if_pos hne, if_pos hne]
    cases hroom : usub sizeofCrsfFrame r.parser.currentFramePosition with
    | error e => rfl
    | ok room =>
      simp only [ok_bind]
      cases hcopy : memcpy r.parser.crsfFrame r.parser.currentFramePosition
          (frame.take (min frame.length room)) with
      | error e => rfl
      | ok mem =>
        simp only [ok_bind]
        by_cases hzero : min frame.length room = 0
        · rw [dif_pos hzero, dif_pos hzero]
          rfl
        · rw [dif_neg hzero, dif_neg hzero]
          cases hbuf : crsfParseBuffer maxChannels ⟨mem, r.parser.currentFramePosition +
              min frame.length room, r.parser.parserState⟩ r.out with
          | error e => rfl
          | ok q =>
            simp only [ok_bind]
            rw [← parsePasses_fst]
            cases parsePasses maxChannels (frame.drop (min frame.length room))
                ⟨r.ret || q.2.2.isSome, q.1, q.2.1, r.decodes ++ q.2.2.toList⟩ with
            | error e => rfl
            | ok q' => rfl
  · rw [if_neg hne, if_neg hne]
    rfl
termination_by frame.length
decreasing_by
  simp only [List.length_drop]
  omega

/-- An iteration that makes progress, leaves room in the buffer, and touches no output from
`max_channels` on. -/
structure Pass.Safe (maxChannels : UInt16) (pass : Pass) : Prop where
  progress : 1 ≤ pass.currentLen
  position_le : pass.position ≤ 29
  values_eq : ∀ i, maxChannels.toNat ≤ i → pass.after.values i = pass.before.values i

/-- An event writes no channel from `max_channels` on. -/
theorem report_values (maxChannels : UInt16) (e : Option (Reassembly.Event UInt8)) (out : RcOutput)
    {i : ℕ} (hi : maxChannels.toNat ≤ i) :
    (report maxChannels e out).1.values i = out.values i := by
  rcases e with - | w | -
  · rfl
  · rw [report]
    split_ifs
    · rw [writeChannels_values, if_neg (by omega)]
    · rfl
  · rfl

/-- One call. With room in the buffer the loop ends, after an iteration a byte at most, and all its
iterations are safe. -/
theorem parsePasses_safe (maxChannels : UInt16) (frame : List UInt8) (r : ParseResult)
    (hr : r.parser.currentFramePosition < 30) :
    ∃ r' passes, parsePasses maxChannels frame r = .ok (r', passes) ∧
      r'.parser.currentFramePosition < 30 ∧ passes.length ≤ frame.length ∧
      ∀ pass ∈ passes, pass.Safe maxChannels := by
  rw [parsePasses]
  by_cases hne : 0 < frame.length
  · set n := min frame.length (30 - r.parser.currentFramePosition) with hn
    have hpos : 0 < n := by omega
    obtain ⟨mem, hcopy, -⟩ := fill_eq (p := r.parser) frame (n := n) (by omega) (by omega)
    obtain ⟨p, -, hlt, hbuf⟩ := crsfParseBuffer_eq maxChannels
      (p := ⟨mem, r.parser.currentFramePosition + n, r.parser.parserState⟩) r.out
      (by simp only; omega) (by simp only; omega)
    obtain ⟨e, hlook⟩ : ∃ e, crsfParseBuffer maxChannels
        ⟨mem, r.parser.currentFramePosition + n, r.parser.parserState⟩ r.out =
          .ok (p, report maxChannels e r.out) := ⟨_, hbuf⟩
    obtain ⟨out, decode, hrep⟩ : ∃ out decode, report maxChannels e r.out = (out, decode) :=
      ⟨_, _, rfl⟩
    rw [hrep] at hlook
    -- what is left is shorter, and starts with room in the buffer again
    obtain ⟨r', passes, hpasses, hlt', hlen, hsafe⟩ := parsePasses_safe maxChannels (frame.drop n)
      ⟨r.ret || decode.isSome, p, out, r.decodes ++ decode.toList⟩ hlt
    refine ⟨r', ⟨n, p.currentFramePosition, r.out, out⟩ :: passes, ?_, hlt', ?_, ?_⟩
    · rw [if_pos hne, usub_eq hr.le, ok_bind, ← hn]
      dsimp only
      rw [hcopy, ok_bind, dif_neg hpos.ne', hlook, ok_bind]
      dsimp only
      rw [hpasses]
      rfl
    · rw [List.length_drop] at hlen
      rw [List.length_cons]
      omega
    · rw [List.forall_mem_cons]
      refine ⟨⟨hpos, Nat.le_of_lt_succ hlt, fun i hi => ?_⟩, hsafe⟩
      rw [← report_values maxChannels e r.out hi, hrep]
  · exact ⟨r, [], by rw [if_neg hne]; rfl, hr, Nat.zero_le _, fun _ h => absurd h List.not_mem_nil⟩
termination_by frame.length
decreasing_by
  simp only [List.length_drop]
  omega

/-! ### Calls -/

/-- The arguments of a call of `crsf_parse`. -/
structure Call where
  maxChannels : UInt16
  frame : List UInt8

/-- A call of `crsf_parse`: the parser and the outputs it leaves, and its iterations. -/
def parseCall (c : Call) (s : Parser × RcOutput) :
    Checked ((Parser × RcOutput) × List Pass) := do
  let (r, passes) ← parsePasses c.maxChannels c.frame ⟨false, s.1, s.2, []⟩
  return ((r.parser, r.out), passes)

/-- A call that ends with its bytes consumed. -/
theorem parseCall_safe (c : Call) {s : Parser × RcOutput} (hs : s.1.currentFramePosition < 30) :
    ∃ r, parseCall c s = .ok r ∧ r.1.1.currentFramePosition < 30 ∧
      r.2.length ≤ c.frame.length ∧ ∀ pass ∈ r.2, pass.Safe c.maxChannels := by
  obtain ⟨r, passes, hpasses, hlt, hlen, hsafe⟩ :=
    parsePasses_safe c.maxChannels c.frame ⟨false, s.1, s.2, []⟩ hs
  refine ⟨((r.parser, r.out), passes), ?_, hlt, hlen, hsafe⟩
  rw [parseCall, hpasses]
  rfl

/-- The iterations are those of `crsf_parse`. -/
theorem parseCall_fst (c : Call) (s : Parser × RcOutput) :
    (parseCall c s).map Prod.fst =
      (crsfParse c.maxChannels c.frame s.1 s.2).map fun r => (r.parser, r.out) := by
  rw [crsfParse, ← parsePasses_fst, parseCall]
  cases parsePasses c.maxChannels c.frame ⟨false, s.1, s.2, []⟩ with
  | error e => rfl
  | ok r => rfl

/-- Safety and progress. Whatever bytes `crsf_parse` is called with, and whatever `max_channels`, no
call from power-on on leaves its memory: no index is outside the 30 bytes of the frame buffer, and
neither the bound of the search nor the length of a move falls below 0. Every iteration of every
call copies at least one byte, so that the "no progress" branch is never taken and the call ends
after as many iterations as it has bytes; it leaves `current_frame_position` at 29 at most, and the
values from `max_channels` on as they were. -/
theorem crsfParse_safe (calls : List Call) (out : RcOutput) :
    ∃ rs, Machine.run parseCall calls (.init, out) = .ok rs ∧
      ∀ (k : ℕ) (c : Call) (r : (Parser × RcOutput) × List Pass),
        calls[k]? = some c → rs[k]? = some r →
        ((crsfParse c.maxChannels c.frame (Machine.final (.init, out) (rs.take k)).1
          (Machine.final (.init, out) (rs.take k)).2).map fun r' => (r'.parser, r'.out)) =
            .ok r.1 ∧
          r.2.length ≤ c.frame.length ∧
          ∀ pass ∈ r.2, 1 ≤ pass.currentLen ∧ pass.position ≤ 29 ∧
            ∀ i, c.maxChannels.toNat ≤ i → pass.after.values i = pass.before.values i := by
  have htotal : ∀ (c : Call) (s : Parser × RcOutput), s.1.currentFramePosition < 30 →
      ∃ r, parseCall c s = .ok r ∧ r.1.1.currentFramePosition < 30 := by
    intro c s hs
    obtain ⟨r, hr, hlt, -⟩ := parseCall_safe c hs
    exact ⟨r, hr, hlt⟩
  have hinit : (Parser.init, out).1.currentFramePosition < 30 := Nat.zero_lt_succ _
  obtain ⟨rs, hrs, -⟩ := Machine.exists_run htotal calls hinit
  refine ⟨rs, hrs, fun k c r hc hr => ?_⟩
  obtain ⟨c', hc', hstep⟩ := Machine.step_of_run hrs hr
  obtain rfl : c = c' := Option.some.inj (hc.symm.trans hc')
  -- the state before the call is the end of a shorter run
  obtain ⟨rs', hrs', hlt⟩ := Machine.exists_run htotal (calls.take k) hinit
  obtain rfl : rs' = rs.take k := Except.ok.inj (hrs'.symm.trans (Machine.run_take hrs k))
  obtain ⟨r', hr', -, hlen, hsafe⟩ := parseCall_safe c hlt
  obtain rfl : r = r' := Except.ok.inj (hstep.symm.trans hr')
  refine ⟨?_, hlen, fun pass hpass => ?_⟩
  · rw [← parseCall_fst, hstep]
    rfl
  · obtain ⟨hprogress, hposition, hvalues⟩ := hsafe pass hpass
    exact ⟨hprogress, hposition, hvalues⟩

end Crsf
