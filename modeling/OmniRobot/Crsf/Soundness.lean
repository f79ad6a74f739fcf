import Mathlib.Tactic.NormNum
import OmniRobot.Crsf.Framer

/-!
# Soundness and atomicity of decoding

What every decode stands for, on any stream and any cut of it: a 26-byte window of the stream
with the length and type of an RC frame and a matching CRC, whose channel fields are the values
written. A call that decodes nothing writes nothing.

## Main results

* `rcChannel_testBit`: the fields are the packed bits, least significant first;
* `convertChannelValue_toNat`: the scaling of a field;
* `mem_reports`: what a reported decode has written;
* `reports_frames`, `reports_channels`: which frames are decoded, and to what;
* `crsfParse_sound`: all of it, after every call of every run.
-/

namespace Crsf

open Reassembly (Event State framesOf Windows)

/-! ### Fields -/

/-- Bit `k` of a byte string, least significant first. -/
def bitAt (l : List UInt8) (k : ℕ) : Bool := (byteAt l (k / 8)).toNat.testBit (k % 8)

theorem testBit_ofDigits (l : List UInt8) (k : ℕ) :
    (Nat.ofDigits 256 (l.map UInt8.toNat)).testBit k = bitAt l k := by
  induction l generalizing k with
  | nil => simp [bitAt, byteAt]
  | cons b l ih =>
    have hb : b.toNat < 2 ^ 8 := b.toNat_lt
    rw [List.map_cons, Nat.ofDigits_cons, Nat.add_comm, show 256 = 2 ^ 8 by decide,
      Nat.testBit_two_pow_mul_add _ hb, ← show 256 = 2 ^ 8 by decide]
    -- bit `k` is in the first byte, or eight places further down in the rest
    split
    next hk => rw [bitAt, Nat.div_eq_of_lt hk, Nat.mod_eq_of_lt hk]; rfl
    next hk =>
      obtain ⟨m, rfl⟩ := Nat.exists_eq_add_of_le' (not_lt.mp hk)
      rw [Nat.add_sub_cancel, ih, bitAt, bitAt, Nat.add_div_right m (by decide),
        Nat.add_mod_right]
      rfl

/-- Channel `k` is bits `11 k` to `11 k + 10` of the payload, least significant first. -/
theorem rcChannel_testBit (payload : List UInt8) (k j : ℕ) (hj : j < 11) :
    (rcChannel payload k).testBit j = bitAt payload (11 * k + j) := by
  rw [rcChannel, Nat.testBit_mod_two_pow, Nat.testBit_shiftRight, testBit_ofDigits]
  simp [hj]

theorem rcChannel_lt (payload : List UInt8) (k : ℕ) : rcChannel payload k < 2 ^ 11 :=
  Nat.mod_lt _ (by decide)

/-- The scaling, as one fraction. -/
theorem convert_eq (c : ℕ) :
    convertScale * c + convertOffset = 988 + ((c : ℚ) - 172) * 1024 / 1639 := by
  rw [convertOffset, convertScale]
  ring

/-- The scaling of a field truncates and fits in 16 bits. -/
theorem convertChannelValue_toNat {c : ℕ} (h : c < 2 ^ 11) :
    ((convertChannelValue c).toNat : ℤ) = truncZ (988 + ((c : ℚ) - 172) * 1024 / 1639) := by
  have hc : (c : ℚ) ≤ 2047 := by exact_mod_cast Nat.le_of_lt_succ h
  have hc₀ : (0 : ℚ) ≤ c := by positivity
  have hpos : (0 : ℚ) ≤ 988 + ((c : ℚ) - 172) * 1024 / 1639 := by linarith
  obtain ⟨h₀, h₁, -⟩ := truncZ_bounds_of_nonneg hpos
  -- the largest field gives 2159, the smallest 880
  have hlt : truncZ (988 + ((c : ℚ) - 172) * 1024 / 1639) < 65536 := by
    have : (truncZ (988 + ((c : ℚ) - 172) * 1024 / 1639) : ℚ) < 65536 := by linarith
    exact_mod_cast this
  have hge : 0 ≤ truncZ (988 + ((c : ℚ) - 172) * 1024 / 1639) := by exact_mod_cast h₀
  rw [convertChannelValue, convert_eq, UInt16.toNat_ofNat_of_lt' (by simp [UInt16.size]; omega)]
  exact Int.toNat_of_nonneg hge

/-! ### Outputs -/

/-- The sixteen conditional writes, value by value. -/
theorem writeChannels_values (maxChannels : UInt16) (payload : List UInt8) (out : RcOutput)
    (i : ℕ) :
    (writeChannels maxChannels payload out).values i =
      if i < min maxChannels.toNat 16 then convertChannelValue (rcChannel payload i)
      else out.values i := by
  have key : ∀ n, (List.range n).foldl (writeChannel maxChannels payload) out.values i =
      if i < min maxChannels.toNat n then convertChannelValue (rcChannel payload i)
      else out.values i := by
    intro n
    induction n with
    | zero => simp
    | succ n ih =>
      -- the write of channel `n` changes index `n` alone, and only if it is below the maximum
      rw [List.range_succ, List.foldl_append, List.foldl_cons, List.foldl_nil, writeChannel]
      by_cases hn : n < maxChannels.toNat
      · by_cases hi : i = n
        · subst hi
          rw [if_pos hn, Function.update_self, if_pos (by omega)]
        · rw [if_pos hn, Function.update_of_ne hi, ih]
          exact if_congr (by omega) rfl rfl
      · rw [if_neg hn, ih]
        exact if_congr (by omega) rfl rfl
  exact key 16

/-- A decode reported by a list of events: its frame is one of theirs, it matches its CRC, and its
outputs are its fields over whatever `values` held outside the channels. -/
theorem mem_reports {maxChannels : UInt16} {es : List (Event UInt8)} {out : RcOutput} {d : Decode}
    (hd : d ∈ (reports maxChannels es out).2) :
    IsRcFrame d.frame ∧ d.frame ∈ framesOf es ∧ d.out.numValues = min maxChannels 16 ∧
      ∀ i, d.out.values i =
        if i < min maxChannels.toNat 16 then convertChannelValue (rcChannel (rcPayload d.frame) i)
        else out.values i := by
  induction es generalizing out with
  | nil => cases hd
  | cons e es ih =>
    rcases e with w | -
    · by_cases hw : IsRcFrame w
      · simp only [reports, report, if_pos hw, Option.toList_some, List.singleton_append,
          List.mem_cons] at hd
        rcases hd with rfl | hd
        · -- decoded here
          exact ⟨hw, by simp [framesOf], rfl, writeChannels_values maxChannels (rcPayload w) out⟩
        · -- decoded later, over what this decode has written
          obtain ⟨h₁, h₂, h₃, h₄⟩ := ih hd
          refine ⟨h₁, by simp [framesOf, h₂], h₃, fun i => ?_⟩
          rw [h₄, writeChannels_values]
          split_ifs <;> rfl
      · simp only [reports, report, if_neg hw, Option.toList_none, List.nil_append] at hd
        obtain ⟨h₁, h₂, h₃⟩ := ih hd
        exact ⟨h₁, by simp [framesOf, h₂], h₃⟩
    · exact ih (by simpa [reports, report] using hd)

/-- The channel values an RC frame stands for. -/
def channelVector (maxChannels : UInt16) (w : List UInt8) : List UInt16 :=
  (List.range (min maxChannels.toNat 16)).map fun i =>
    convertChannelValue (rcChannel (rcPayload w) i)

/-- The channel values a decode left in `values`. -/
def Decode.channels (d : Decode) : List UInt16 :=
  (List.range d.out.numValues.toNat).map d.out.values

/-- The decoded frames are the RC frames with a matching CRC, in the same order. -/
theorem reports_frames (maxChannels : UInt16) (es : List (Event UInt8)) (out : RcOutput) :
    (reports maxChannels es out).2.map Decode.frame =
      (framesOf es).filter (fun w => IsRcFrame w) := by
  induction es generalizing out with
  | nil => rfl
  | cons e es ih =>
    rcases e with w | -
    · by_cases hw : IsRcFrame w
      · simpa [reports, report, hw, framesOf] using ih _
      · simpa [reports, report, hw, framesOf] using ih out
    · simpa [reports, report, framesOf] using ih out

/-- The channel values of a decode are those of its frame. -/
theorem channels_of_mem_reports {maxChannels : UInt16} {es : List (Event UInt8)} {out : RcOutput}
    {d : Decode} (hd : d ∈ (reports maxChannels es out).2) :
    d.channels = channelVector maxChannels d.frame := by
  obtain ⟨-, -, hnum, hval⟩ := mem_reports hd
  have h16 : maxChannels ≤ 16 ↔ maxChannels.toNat ≤ 16 := UInt16.le_iff_toNat_le
  have hmin : (min maxChannels 16).toNat = min maxChannels.toNat 16 := by
    by_cases h : maxChannels ≤ 16
    · rw [min_eq_left (h16.mp h), show min maxChannels 16 = maxChannels from if_pos h]
    · rw [min_eq_right (Nat.le_of_not_le fun hle => h (h16.mpr hle)),
        show min maxChannels 16 = 16 from if_neg h]
      rfl
  rw [Decode.channels, channelVector, hnum, hmin]
  refine List.map_congr_left fun i hi => ?_
  rw [hval, if_pos (List.mem_range.mp hi)]

/-- The decoded channel values, frame by frame. -/
theorem reports_channels (maxChannels : UInt16) (es : List (Event UInt8)) (out : RcOutput) :
    (reports maxChannels es out).2.map Decode.channels =
      ((framesOf es).filter (fun w => IsRcFrame w)).map (channelVector maxChannels) := by
  rw [← reports_frames maxChannels es out, List.map_map]
  exact List.map_congr_left fun d hd => channels_of_mem_reports hd

/-- The outputs are those the last decode left. -/
theorem reports_out (maxChannels : UInt16) (es : List (Event UInt8)) (out : RcOutput) :
    (reports maxChannels es out).1 =
      ((reports maxChannels es out).2.getLast?.map Decode.out).getD out := by
  induction es generalizing out with
  | nil => rfl
  | cons e es ih =>
    rw [reports, ih]
    rcases e with w | -
    · by_cases hw : IsRcFrame w
      · simp only [report, if_pos hw, Option.toList_some, List.singleton_append,
          List.getLast?_cons]
        cases (reports maxChannels es _).2.getLast? <;> rfl
      · simp [report, hw]
    · simp [report]

/-- An RC frame is 26 bytes long. -/
theorem length_of_isRcFrame {w : List UInt8} (hw : Reassembly.IsFrame protocol w)
    (hrc : IsRcFrame w) : w.length = 26 := by
  have hlen := (frameVerdict_eq_frame_iff.mp hw).1
  rw [hlen, hrc.2.1]
  rfl

/-- An RC frame whose 22 payload bytes are all `b`. -/
def constFrame (b : UInt8) : List UInt8 :=
  0xC8 :: 24 :: 0x16 :: List.replicate 22 b ++
    [crc8DvbS2Buf (0x16 :: List.replicate 22 b)]

/-! ### Every call of every run -/

/-- Soundness and atomicity of decoding. Feed the parser any reads and then one more, with any
`max_channels`:

* its buffer is the last bytes received;
* the decodes so far are disjoint 26-byte windows of the stream, in order, each with length byte
  24, type `0x16` and a last byte equal to the CRC of the 23 bytes before it;
* each left `num_values = min(max_channels, 16)` and the scaled 11-bit fields of its window in
  `values`, no index beyond them was ever written, and the outputs are those of the last decode;
* if the last call returned false, it left the outputs as they were. -/
theorem crsfParse_sound (maxChannels : UInt16) (out : RcOutput) (reads : List (List UInt8))
    (read : List UInt8) :
    ∃ before after, parseReads maxChannels reads (.init out) = .ok before ∧
      crsfParse maxChannels read before.parser before.out = .ok after ∧
      ((front after.parser.crsfFrame after.parser.currentFramePosition).length =
          after.parser.currentFramePosition ∧
        front after.parser.crsfFrame after.parser.currentFramePosition <:+ reads.flatten ++ read) ∧
      (Windows ((before.decodes ++ after.decodes).map Decode.frame) (reads.flatten ++ read) ∧
        ∀ d ∈ before.decodes ++ after.decodes, d.frame.length = 26 ∧ byteAt d.frame 1 = 24 ∧
          byteAt d.frame 2 = 0x16 ∧
          byteAt d.frame 25 = crc8DvbS2Buf ((d.frame.drop 2).take 23)) ∧
      ((∀ d ∈ before.decodes ++ after.decodes, d.out.numValues = min maxChannels 16 ∧
        (∀ i < min maxChannels.toNat 16, ∃ c : ℕ, c < 2 ^ 11 ∧
          (∀ j < 11, c.testBit j = bitAt ((d.frame.drop 3).take 22) (11 * i + j)) ∧
          ((d.out.values i).toNat : ℤ) = truncZ (988 + ((c : ℚ) - 172) * 1024 / 1639)) ∧
        ∀ i, min maxChannels.toNat 16 ≤ i → d.out.values i = out.values i) ∧
        after.out = ((before.decodes ++ after.decodes).getLast?.map Decode.out).getD out) ∧
      (after.ret = false → after.out = before.out) := by
  obtain ⟨es, before, hreads, hlt, hrun, hout, hdecodes⟩ :=
    parseReads_eq maxChannels reads (.init out) (Nat.zero_lt_succ _)
  obtain ⟨p', hview, hlt', hparse⟩ := crsfParse_eq maxChannels read before.out hlt
  have hfeed := Reassembly.feed_run (P := protocol) before.parser.view read
    (by rw [show before.parser.view.buf.length = _ from length_front hlt.le]; exact hlt)
  rw [← hview] at hfeed
  set es' := (Reassembly.feed protocol before.parser.view read).2
  -- the reads and the last one are a single run from power-on
  have hall := hrun.append hfeed
  have hinit : (ParseResult.init out).parser.view.buf = [] := rfl
  have hdec : before.decodes ++ (reports maxChannels es' before.out).2 =
      (reports maxChannels (es ++ es') out).2 := by
    rw [reports_append, hdecodes, hout]
    rfl
  refine ⟨before, _, hreads, hparse, ⟨length_front hlt'.le, ?_⟩, ⟨?_, fun d hd => ?_⟩,
    ⟨fun d hd => ?_, ?_⟩, fun hret => ?_⟩
  · -- the buffer is the end of the stream
    have hsuffix := hall.suffix
    rwa [hinit, List.nil_append] at hsuffix
  · -- the decoded frames are some of the frames consumed, which are disjoint windows
    rw [hdec, reports_frames]
    simpa [hinit] using hall.windows.sublist List.filter_sublist
  · rw [hdec] at hd
    obtain ⟨hrc, hmem, -⟩ := mem_reports hd
    exact ⟨length_of_isRcFrame (hall.isFrame hmem) hrc, hrc.2.1, hrc.1, hrc.2.2⟩
  · rw [hdec] at hd
    obtain ⟨-, -, hnum, hval⟩ := mem_reports hd
    refine ⟨hnum, fun i hi => ⟨rcChannel (rcPayload d.frame) i, rcChannel_lt _ i,
      fun j hj => rcChannel_testBit _ i j hj, ?_⟩, fun i hi => ?_⟩
    · rw [hval, if_pos hi, convertChannelValue_toNat (rcChannel_lt _ _)]
    · rw [hval, if_neg (not_lt.mpr hi)]
  · rw [hdec, ← reports_out, reports_append, hout]
    rfl
  · -- a call that returns false has decoded nothing
    have hnil : (reports maxChannels es' before.out).2 = [] := by simpa using hret
    show (reports maxChannels es' before.out).1 = before.out
    rw [reports_out, hnil]
    rfl

end Crsf
