import OmniRobot.Crsf.Soundness
import OmniRobot.Reassembly.Walk

/-!
# At most one decode for each read

`loop()` reads at most 25 bytes, and looks at the channels once after each read. Between two calls
the parser is `Settled`: it has nothing more to report about the bytes it holds, so at most 26 of
them are there, or they are the start of a longer frame, or they hold no header. From such a state
25 more bytes complete at most one RC frame.

## Main results

* `settled_run`: every run leaves the parser settled;
* `crsfParse_decodes_le_one`: a call of at most 25 bytes decodes at most one frame.
-/

namespace Crsf

open Reassembly (Event State Run bytesOf framesOf scan scanSynced seek)

/-- What holds of the buffer after any look at it. -/
inductive Settled (s : State UInt8) : Prop
  | short : s.buf.length ≤ 26 → Settled s
  | waiting : s.synced = true → frameVerdict s.buf = .wait → Settled s
  | searching : s.synced = false → seek protocol s.buf = none → Settled s

theorem settled_init : Settled State.init := .short (Nat.zero_le _)

theorem settled_scanSynced {b : List UInt8} (hb : b.length ≤ 30) :
    Settled (scanSynced protocol b).1 := by
  unfold scanSynced
  split
  next h => exact .waiting rfl h
  next => exact .short (Nat.zero_le _)
  next n h =>
    have := (frameVerdict_eq_frame_iff.mp h).2.1
    refine .short ?_
    simp only [List.length_drop]
    omega

theorem settled_scan {s s' : State UInt8} {e : Option (Event UInt8)} (hs : s.buf.length ≤ 30)
    (h : scan protocol s = (s', e)) : Settled s' := by
  unfold scan at h
  split at h
  · rw [show s' = (scanSynced protocol s.buf).1 by rw [h]]
    exact settled_scanSynced hs
  · split at h
    next b hb =>
      rw [show s' = (scanSynced protocol b).1 by rw [h]]
      exact settled_scanSynced ((Reassembly.seek_suffix hb).length_le.trans hs)
    next hb =>
      split at h <;> cases h
      · -- a full buffer without a header is cut down to three bytes
        refine .short ?_
        have : protocol.keep = 3 := rfl
        simp only [List.length_drop]
        omega
      · exact .searching (by simp_all) hb

/-- Every run leaves the parser settled. -/
theorem settled_run {s s' : State UInt8} {bytes : List UInt8} {es : List (Event UInt8)}
    (h : Run protocol s bytes es s') (hs : Settled s) : Settled s' := by
  induction h with
  | nil => exact hs
  | fill hc hscan _ ih =>
    refine ih (settled_scan ?_ hscan)
    rw [State.push_buf, List.length_append]
    exact hc

/-- The first event from a buffer that waits for the rest of a frame is that frame. -/
theorem first_event_of_waiting {s s' : State UInt8} {bytes : List UInt8}
    {es : List (Event UInt8)} (h : Run protocol s bytes es s') (hs : s.synced = true)
    (hlen : 3 ≤ s.buf.length) (hwait : frameVerdict s.buf = .wait) :
    es = [] ∨ ∃ w rest, es = .frame w :: rest ∧ w.length = (byteAt s.buf 1).toNat + 2 := by
  induction h with
  | nil => exact .inl rfl
  | @fill s s₁ s₂ c bytes e es hc hscan hrun ih =>
    -- the length byte is there already, so fills do not change what is awaited
    have hbyte : byteAt (s.buf ++ c) 1 = byteAt s.buf 1 := by
      rw [byteAt_eq_getElem (show 1 < (s.buf ++ c).length by simp; omega),
        byteAt_eq_getElem (show 1 < s.buf.length by omega), List.getElem_append_left]
    have hlen' : 3 ≤ (s.buf ++ c).length := by simp; omega
    have hverdict := frameVerdict_eq hlen'
    rw [frameVerdict_eq hlen] at hwait
    split_ifs at hwait with hbogus hshort
    rw [hbyte, if_neg hbogus] at hverdict
    rw [scan, State.push_synced, hs, if_pos rfl, State.push_buf] at hscan
    by_cases hfull : (s.buf ++ c).length < (byteAt s.buf 1).toNat + 2
    · rw [if_pos hfull] at hverdict
      rw [Reassembly.scanSynced_of_wait hverdict] at hscan
      cases hscan
      simpa [hbyte] using ih rfl hlen' hverdict
    · rw [if_neg hfull] at hverdict
      rw [Reassembly.scanSynced_of_frame hverdict] at hscan
      cases hscan
      refine .inr ⟨_, es, rfl, ?_⟩
      rw [List.length_take]
      omega

/-- The decodes of a list of events take 26 bytes each. -/
theorem length_decodes (maxChannels : UInt16) {es : List (Event UInt8)}
    (hes : ∀ w ∈ framesOf es, Reassembly.IsFrame protocol w) (out : RcOutput) :
    26 * (reports maxChannels es out).2.length ≤ (bytesOf es).length := by
  induction es generalizing out with
  | nil => simp [reports]
  | cons e es ih =>
    rcases e with w | -
    · have hrest := ih (fun v hv => hes v (by simp [framesOf, hv]))
      by_cases hw : IsRcFrame w
      · have hlen := length_of_isRcFrame (hes w (by simp [framesOf])) hw
        have := hrest (writeChannels maxChannels (rcPayload w) out)
        simp [reports, report, hw, hlen]
        omega
      · have := hrest out
        simp [reports, report, hw]
        omega
    · simpa [reports, report] using ih hes out

/-- A run of at most 25 bytes from a settled state decodes at most one frame. -/
theorem length_decodes_le_one (maxChannels : UInt16) (out : RcOutput) {s s' : State UInt8}
    {bytes : List UInt8} {es : List (Event UInt8)} (h : Run protocol s bytes es s')
    (hlt : s.buf.length < 30) (hs : Settled s) (hbytes : bytes.length ≤ 25) :
    (reports maxChannels es out).2.length ≤ 1 := by
  have htotal := h.length_frames
  have hdec := length_decodes maxChannels (fun w hw => h.isFrame hw) out
  cases hs with
  | short hshort =>
    -- two RC frames have 52 bytes, one more than the buffer and the read together
    omega
  | searching hsync hseek =>
    -- of the buffer only the last two bytes can be part of a frame
    have := h.length_frames_of_searching hsync hseek
    have : protocol.headerLen = 3 := rfl
    omega
  | waiting hsync hwait =>
    by_cases hshort : s.buf.length ≤ 26
    · omega
    rcases first_event_of_waiting h hsync (by omega) hwait with rfl | ⟨w, rest, rfl, hw⟩
    · simp [reports]
    -- the pending frame is longer than an RC frame, and leaves room for one RC frame at most
    rw [frameVerdict_eq (by omega)] at hwait
    split_ifs at hwait with hbogus hpending
    have hnot : ¬ IsRcFrame w := by
      intro hrc
      have := length_of_isRcFrame (h.isFrame (by simp [framesOf])) hrc
      omega
    have hrest := length_decodes maxChannels
      (fun v hv => h.isFrame (by simp [framesOf, hv]) : ∀ v ∈ framesOf rest, _) out
    simp only [Reassembly.bytesOf_cons, Reassembly.Event.bytes_frame, List.length_append]
      at htotal
    simp only [reports, report, hnot, if_false, Option.toList_none, List.nil_append]
    omega

/-- A call of at most 25 bytes from a settled parser decodes at most one frame, and leaves the
parser settled. -/
theorem crsfParse_decodes_le_one (maxChannels : UInt16) {read : List UInt8} {p : Parser}
    (out : RcOutput) (hp : p.currentFramePosition < 30) (hs : Settled p.view)
    (hread : read.length ≤ 25) :
    ∃ r, crsfParse maxChannels read p out = .ok r ∧ r.parser.currentFramePosition < 30 ∧
      Settled r.parser.view ∧ r.decodes.length ≤ 1 ∧ r.ret = !r.decodes.isEmpty ∧
      r.out = (r.decodes.getLast?.map Decode.out).getD out := by
  obtain ⟨p', hview, hlt, hparse⟩ := crsfParse_eq maxChannels read out hp
  have hbuf : p.view.buf.length = p.currentFramePosition := length_front hp.le
  have hrun := Reassembly.feed_run (P := protocol) p.view read (by rw [hbuf]; exact hp)
  rw [← hview] at hrun
  exact ⟨_, hparse, hlt, settled_run hrun hs,
    length_decodes_le_one maxChannels out hrun (by omega) hs hread, rfl,
    reports_out maxChannels _ out⟩

end Crsf
