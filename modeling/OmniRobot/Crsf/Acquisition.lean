import OmniRobot.Crsf.Soundness
import OmniRobot.Reassembly.Walk

/-!
# Acquisition and lossless framing

A stream that starts with noise and goes on with whole frames, the first of them an RC frame
whose length and type are the first pair `0x18 0x16` after the stream's first byte. However the
stream is cut into reads, the parser finds the first frame and then decodes exactly the RC frames
with a matching CRC, one after the other; only frames still in the buffer, or still to come, are
missing.

## Main results

* `seek_framedStream`: the search of the whole stream ends at the first frame;
* `parseReads_framedStream`: the decodes of every cut.
-/

namespace Crsf

open Reassembly (Event State seek walk framesOf)

/-- A stream `noise ++ first ++ frames₂ ++ frames₃ ++ …`. -/
structure FramedStream (noise first : List UInt8) (frames : List (List UInt8)) : Prop where
  /-- Every frame states its length, between 2 and 28, and is two bytes longer. -/
  length_eq : ∀ w ∈ first :: frames, 2 ≤ (byteAt w 1).toNat ∧ (byteAt w 1).toNat ≤ 28 ∧
    w.length = (byteAt w 1).toNat + 2
  /-- The first frame has the length and type of an RC frame. -/
  first_rc : byteAt first 1 = 24 ∧ byteAt first 2 = 0x16
  /-- No earlier pair of bytes, from the stream's second byte on, looks like them. -/
  first_pair : ∀ i, 1 ≤ i → i < noise.length + 1 →
    ¬ (byteAt (noise ++ (first :: frames).flatten) i = 24 ∧
      byteAt (noise ++ (first :: frames).flatten) (i + 1) = 0x16)

/-- A list that states its own length is one frame. -/
theorem isFrame_of_length {w : List UInt8} (h₂ : 2 ≤ (byteAt w 1).toNat)
    (h₂₈ : (byteAt w 1).toNat ≤ 28) (hlen : w.length = (byteAt w 1).toNat + 2) :
    Reassembly.IsFrame protocol w := by
  change frameVerdict w = _
  rw [frameVerdict_eq (by omega), if_neg (by omega), if_neg (by omega), hlen]

section FramedStream

variable {noise first : List UInt8} {frames : List (List UInt8)}
  (h : FramedStream noise first frames)

include h

theorem FramedStream.isFrame {w : List UInt8} (hw : w ∈ first :: frames) :
    Reassembly.IsFrame protocol w :=
  isFrame_of_length (h.length_eq w hw).1 (h.length_eq w hw).2.1 (h.length_eq w hw).2.2

theorem FramedStream.length_first : first.length = 26 := by
  rw [(h.length_eq first (by simp)).2.2, h.first_rc.1]
  rfl

/-- The first frame carries the first header of the stream. -/
theorem seek_framedStream :
    seek protocol (noise ++ (first :: frames).flatten) = some (first :: frames).flatten := by
  have hlen := h.length_first
  have hhead : protocol.header (first :: frames).flatten = true := by
    change rcHeader _ = true
    rw [rcHeader_eq (by simp; omega), List.flatten_cons, byteAt_append_left _ (by omega),
      byteAt_append_left _ (by omega), decide_eq_true_iff]
    exact h.first_rc
  rw [Reassembly.seek_append_of_front]
  · exact Reassembly.seek_of_header hhead
  · -- a header inside the noise would be an earlier first pair
    rintro y ⟨x, rfl⟩ hne
    have hpos := List.length_pos_iff.mpr hne
    have hdrop : y ++ (first :: frames).flatten =
        ((x ++ y) ++ (first :: frames).flatten).drop x.length := by simp
    change rcHeader _ = false
    rw [hdrop, rcHeader_drop (by simp; omega), decide_eq_false_iff_not]
    exact h.first_pair _ (Nat.le_add_left 1 _) (by simp; omega)

/-- From the first frame on the stream is nothing but frames. -/
theorem FramedStream.walk_frames :
    walk protocol (first :: frames).flatten = (first :: frames).map Event.frame := by
  have hwalk := Reassembly.walk_frames (P := protocol) (fun w hw => h.isFrame hw) []
  rwa [List.append_nil, Reassembly.walk_of_wait (l := []) rfl, List.append_nil] at hwalk

section Received

variable {received missing : List UInt8}
  (hm : received ++ missing = noise ++ (first :: frames).flatten)

include hm

/-- A front of the stream in which no header shows does not hold three bytes of the first frame:
they would be one. -/
theorem FramedStream.length_lt_of_seek_none (hnone : seek protocol received = none) :
    received.length < noise.length + 3 := by
  by_contra hge
  have hlen := h.length_first
  -- the three bytes have all been received
  have hpre : noise ++ first.take 3 <+: received := by
    have hstream : noise ++ first.take 3 <+: received ++ missing := by
      rw [hm, List.flatten_cons, List.prefix_append_right_inj]
      exact (List.take_prefix 3 first).trans (List.prefix_append _ _)
    refine List.prefix_of_prefix_length_le hstream (List.prefix_append _ _) ?_
    rw [List.length_append, List.length_take]
    omega
  obtain ⟨t, ht⟩ := hpre
  have hhead := Reassembly.seek_eq_none_iff.mp hnone (first.take 3 ++ t)
    ⟨noise, by rw [← List.append_assoc, ht]⟩
  -- and a header depends on no more than these
  have hfirst : protocol.header first = true := by
    change rcHeader _ = true
    rw [rcHeader_eq (by omega), decide_eq_true_iff]
    exact h.first_rc
  have hthree : protocol.header (first.take 3) = true := by
    rw [← protocol.header_append (first.drop 3) (by rw [List.length_take, hlen]; decide),
      List.take_append_drop]
    exact hfirst
  rw [protocol.header_append t (protocol.length_of_header hthree), hthree] at hhead
  cases hhead

/-- What the search has kept of a front of the stream starts with the first frame. -/
theorem FramedStream.append_of_seek {l : List UInt8} (hsome : seek protocol received = some l) :
    l ++ missing = (first :: frames).flatten := by
  have hseek := Reassembly.seek_append_of_some hsome missing
  rw [hm, seek_framedStream h] at hseek
  exact (Option.some.inj hseek).symm

omit h hm in
/-- More frames have no fewer bytes. -/
theorem length_flatten_take_le (ws : List (List UInt8)) {i j : ℕ} (hij : i ≤ j) :
    (ws.take i).flatten.length ≤ (ws.take j).flatten.length := by
  obtain ⟨t, ht⟩ := List.take_prefix_take_left (l := ws) hij
  rw [← ht, List.flatten_append, List.length_append]
  exact Nat.le_add_right _ _

/-- Once the first frame is found, the events are the first frames of the stream, and every byte
received is noise, in one of them or in the buffer. -/
theorem FramedStream.events_of_seek {l buf : List UInt8} {es : List (Event UInt8)}
    (hsome : seek protocol received = some l) (hbytes : Reassembly.bytesOf es ++ buf = l)
    (hw : ∀ m, walk protocol (l ++ m) = es ++ walk protocol (buf ++ m)) :
    es.length ≤ (first :: frames).length ∧
      framesOf es = (first :: frames).take es.length ∧
      received.length =
        noise.length + ((first :: frames).take es.length).flatten.length + buf.length := by
  have hl := h.append_of_seek hm hsome
  have hprefix := hw missing
  rw [hl, h.walk_frames] at hprefix
  have hes : es = ((first :: frames).take es.length).map Event.frame := by
    rw [List.map_take, hprefix, List.take_left]
  have hk : es.length ≤ (first :: frames).length := by
    have := congrArg List.length hprefix
    simp only [List.length_map, List.length_append] at this
    omega
  have hconsumed : Reassembly.bytesOf es = ((first :: frames).take es.length).flatten := by
    conv_lhs => rw [hes]
    simp [Reassembly.bytesOf, Function.comp_def]
  refine ⟨hk, ?_, ?_⟩
  · conv_lhs => rw [hes]
    exact Reassembly.framesOf_map_frame _
  · have h₁ := congrArg List.length hm
    have h₂ := congrArg List.length hl
    have h₃ := congrArg List.length hbytes
    rw [hconsumed] at h₃
    simp only [List.length_append] at h₁ h₂ h₃
    omega

end Received

/-- Acquisition and lossless framing. However a framed stream, or any front of it, is cut into
reads, the parser decodes exactly the RC frames with a matching CRC among the first `k` frames, in
order. These have arrived, and left the buffer. A later frame has not all arrived, or lies whole in
the last bytes received, fewer than 30, that the buffer holds. -/
theorem parseReads_framedStream (maxChannels : UInt16) (out : RcOutput)
    (reads : List (List UInt8))
    (hreads : reads.flatten <+: noise ++ (first :: frames).flatten) :
    ∃ r k, parseReads maxChannels reads (.init out) = .ok r ∧ k ≤ (first :: frames).length ∧
      r.decodes.map Decode.frame =
        ((first :: frames).take k).filter (fun w => IsRcFrame w) ∧
      r.decodes.map Decode.channels =
        (((first :: frames).take k).filter (fun w => IsRcFrame w)).map
          (channelVector maxChannels) ∧
      r.parser.currentFramePosition < 30 ∧
      (∀ j < k, noise.length + ((first :: frames).take (j + 1)).flatten.length +
        r.parser.currentFramePosition ≤ reads.flatten.length) ∧
      ∀ j, k ≤ j → j < (first :: frames).length →
        reads.flatten.length < noise.length + ((first :: frames).take (j + 1)).flatten.length ∨
        reads.flatten.length ≤
          noise.length + ((first :: frames).take j).flatten.length +
            r.parser.currentFramePosition := by
  obtain ⟨es, r, hr, hlt, hrun, hout, hdecodes⟩ :=
    parseReads_eq maxChannels reads (.init out) (Nat.zero_lt_succ _)
  obtain ⟨m, hm⟩ := hreads
  have hdec : r.decodes = (reports maxChannels es out).2 := hdecodes
  have hbuf : r.parser.view.buf.length = r.parser.currentFramePosition := length_front hlt.le
  cases Reassembly.follows_of_run hrun with
  | searching _ hes hnone _ _ =>
    -- nothing is found, so the first frame has not all arrived
    subst hes
    have hshort := h.length_lt_of_seek_none hm hnone
    refine ⟨r, 0, hr, Nat.zero_le _, by simp [hdec, reports], by simp [hdec, reports], hlt,
      fun j hj => absurd hj (Nat.not_lt_zero j), fun j _ _ => .inl ?_⟩
    have := h.length_first
    simp only [List.take_succ_cons, List.flatten_cons, List.length_append]
    omega
  | framing l _ _ hsome hbytes hw =>
    obtain ⟨hk, hframes, hreceived⟩ := h.events_of_seek hm hsome hbytes hw
    have hrep := reports_frames maxChannels es out
    have hchan := reports_channels maxChannels es out
    rw [hframes, ← hdec] at hrep hchan
    refine ⟨r, es.length, hr, hk, hrep, hchan, hlt, fun j hj => ?_, fun j hj _ => .inr ?_⟩
    · have := length_flatten_take_le (first :: frames) (show j + 1 ≤ es.length from hj)
      omega
    · have := length_flatten_take_le (first :: frames) hj
      omega
  | lost l es₁ es₂ _ _ hsome hw =>
    -- a walk over whole frames never gives up
    have hlost := hw m
    rw [h.append_of_seek hm hsome, h.walk_frames] at hlost
    have hmem : Event.desync ∈ (first :: frames).map (Event.frame (α := UInt8)) := by
      rw [hlost]
      simp
    simp at hmem

end FramedStream

/-- One byte of noise, an RC frame with every channel 0, then half of a second frame. -/
theorem parseReads_framedStream_noise :
    ∃ r k, parseReads 18 [7 :: (constFrame 0).take 10, (constFrame 0).drop 10 ++ [0xC8, 2]]
        (.init .init) = .ok r ∧
      k ≤ 2 ∧ r.decodes.map Decode.frame =
        ([constFrame 0, [0xC8, 2, 7, 0]].take k).filter (fun w => IsRcFrame w) := by
  have h : FramedStream [7] (constFrame 0) [[0xC8, 2, 7, 0]] := by
    refine ⟨by decide +kernel, by decide +kernel, fun i h₁ h₂ => ?_⟩
    obtain rfl : i = 1 := by simp at h₂; omega
    decide +kernel
  obtain ⟨r, k, hr, hk, hframes, -⟩ := parseReads_framedStream h 18 .init
    [7 :: (constFrame 0).take 10, (constFrame 0).drop 10 ++ [0xC8, 2]] (by decide +kernel)
  exact ⟨r, k, hr, hk, hframes⟩

end Crsf
