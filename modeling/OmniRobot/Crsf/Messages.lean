import OmniRobot.Crsf.Soundness
import OmniRobot.Numeric.Digits
import OmniRobot.Reassembly.Walk

/-!
# Messages

What a transmitter means by the bytes it sends: sixteen channel codes of 11 bits each, packed in an
RC frame with its CRC, or some other frame, which the parser passes over. `Codes` holds codes that
fit their fields, so every value of it has a frame.

## Main results

* `packChannels_rcChannels`, `rcChannels_packChannels`: packing and unpacking are inverse;
* `exists_eq_rcFrame`: every intact RC frame is the frame of some codes;
* `crsfParse_rcFrame`: the parser accepts exactly these frames;
* `parseReads_messages`: a stream of messages is received as it was sent.
-/

namespace Crsf

open Digits (IsDigits regroup)
open Reassembly (Event IsFrame State)

/-! ### Packing -/

/-- The codes of the sixteen channels. -/
abbrev Codes := { codes : List ℕ // IsDigits (2 ^ 11) 16 codes }

/-- The sixteen fields of a payload. -/
def rcChannels (payload : List UInt8) : List ℕ := (List.range 16).map (rcChannel payload)

/-- The payload with given fields. -/
def packChannels (codes : List ℕ) : List UInt8 := (regroup (2 ^ 11) 256 22 codes).map UInt8.ofNat

theorem isDigits_bytes {n : ℕ} {payload : List UInt8} (h : payload.length = n) :
    IsDigits 256 n (payload.map UInt8.toNat) := by
  refine ⟨by rw [List.length_map, h], fun x hx => ?_⟩
  obtain ⟨b, -, rfl⟩ := List.mem_map.mp hx
  exact b.toNat_lt

/-- The fields are the payload in base `2 ^ 11`. -/
theorem rcChannels_eq (payload : List UInt8) :
    rcChannels payload = regroup 256 (2 ^ 11) 16 (payload.map UInt8.toNat) := by
  refine List.map_congr_left fun k _ => ?_
  rw [rcChannel, Nat.shiftRight_eq_div_pow, pow_mul]

theorem isDigits_rcChannels (payload : List UInt8) : IsDigits (2 ^ 11) 16 (rcChannels payload) := by
  rw [rcChannels_eq]
  exact Digits.isDigits_regroup (by decide)

/-- The bytes of a packed payload are the codes in base 256. -/
theorem toNat_packChannels (codes : List ℕ) :
    (packChannels codes).map UInt8.toNat = regroup (2 ^ 11) 256 22 codes := by
  rw [packChannels, List.map_map]
  conv_rhs => rw [← List.map_id (regroup (2 ^ 11) 256 22 codes)]
  refine List.map_congr_left fun x hx => ?_
  exact UInt8.toNat_ofNat_of_lt' ((Digits.isDigits_regroup (by decide)).2 x hx)

@[simp] theorem length_packChannels (codes : List ℕ) : (packChannels codes).length = 22 := by
  simp [packChannels]

/-- Unpacking gives the codes back. -/
theorem rcChannels_packChannels (codes : Codes) :
    rcChannels (packChannels codes.val) = codes.val := by
  rw [rcChannels_eq, toNat_packChannels]
  exact Digits.regroup_regroup (by decide) (by norm_num) codes.property

/-- Packing the fields of a payload gives it back. -/
theorem packChannels_rcChannels {payload : List UInt8} (h : payload.length = 22) :
    packChannels (rcChannels payload) = payload := by
  have hbytes := Digits.regroup_regroup (b := 256) (c := 2 ^ 11) (n := 22) (m := 16) (by decide)
    (by norm_num) (isDigits_bytes h)
  rw [packChannels, rcChannels_eq, hbytes, List.map_map]
  conv_rhs => rw [← List.map_id payload]
  exact List.map_congr_left fun b _ => UInt8.ofNat_toNat

/-! ### Frames -/

/-- The RC frame of some codes. -/
def rcFrame (address : UInt8) (codes : Codes) : List UInt8 :=
  address :: lengthRcChannels :: typeRcChannelsPacked :: (packChannels codes.val ++
    [crc8DvbS2Buf (typeRcChannelsPacked :: packChannels codes.val)])

@[simp] theorem length_rcFrame (address : UInt8) (codes : Codes) :
    (rcFrame address codes).length = 26 := by
  simp [rcFrame]

theorem isFrame_rcFrame (address : UInt8) (codes : Codes) :
    IsFrame protocol (rcFrame address codes) := by
  change frameVerdict (rcFrame address codes) = _
  refine frameVerdict_eq_frame_iff.mpr ⟨?_, ?_, ?_, le_rfl⟩
  all_goals rw [length_rcFrame]
  · rfl
  · decide
  · decide

theorem rcPayload_rcFrame (address : UInt8) (codes : Codes) :
    rcPayload (rcFrame address codes) = packChannels codes.val :=
  List.take_left' (length_packChannels codes.val)

theorem isRcFrame_rcFrame (address : UInt8) (codes : Codes) :
    IsRcFrame (rcFrame address codes) := by
  refine ⟨rfl, rfl, ?_⟩
  have hcrc : frameCrc (rcFrame address codes) =
      crc8DvbS2Buf (typeRcChannelsPacked :: packChannels codes.val) := by
    rw [frameCrc, rcFrame, List.drop_succ_cons, List.drop_succ_cons, List.drop_zero,
      List.take_succ_cons, List.take_left' (length_packChannels codes.val)]
  rw [hcrc, byteAt, rcFrame, List.getD_eq_getElem?_getD]
  simp

/-- Every intact RC frame is the frame of some codes. -/
theorem exists_eq_rcFrame {w : List UInt8} (hw : IsFrame protocol w) (hrc : IsRcFrame w) :
    ∃ address codes, w = rcFrame address codes := by
  have hlen := length_of_isRcFrame hw hrc
  obtain ⟨htype, hlength, hcrc⟩ := hrc
  match w, hlen with
  | address :: length :: type :: rest, hlen =>
    have hrest : rest.length = 23 := by simpa using hlen
    -- the last byte is the CRC, the others are the payload
    obtain ⟨payload, crc, rfl⟩ : ∃ payload crc, rest = payload ++ [crc] :=
      ⟨rest.dropLast, rest.getLast (by rintro rfl; cases hrest),
        (List.dropLast_append_getLast _).symm⟩
    have hpayload : payload.length = 22 := by simpa using hrest
    have hcodes := packChannels_rcChannels hpayload
    refine ⟨address, ⟨rcChannels payload, isDigits_rcChannels payload⟩, ?_⟩
    obtain rfl : length = lengthRcChannels := hlength
    obtain rfl : type = typeRcChannelsPacked := htype
    have hlast : crc = crc8DvbS2Buf (typeRcChannelsPacked :: payload) := by
      rw [byteAt, frameCrc] at hcrc
      simpa [hpayload, List.take_of_length_le hpayload.le] using hcrc
    rw [rcFrame, hcodes, hlast]

/-- The header of an RC frame is found at its front. -/
theorem header_rcFrame (address : UInt8) (codes : Codes) :
    protocol.header (rcFrame address codes) = true := rfl

/-- The scaled codes of a frame. -/
theorem rcChannel_rcFrame (address : UInt8) (codes : Codes) {i : ℕ} (hi : i < 16) :
    rcChannel (rcPayload (rcFrame address codes)) i = codes.val.getD i 0 := by
  have hcodes := congrArg (fun l => l.getD i 0) (rcChannels_packChannels codes)
  rw [rcPayload_rcFrame, ← hcodes]
  simp [rcChannels, hi]

theorem channelVector_rcFrame (maxChannels : UInt16) (address : UInt8) (codes : Codes) :
    channelVector maxChannels (rcFrame address codes) =
      (codes.val.take (min maxChannels.toNat 16)).map convertChannelValue := by
  have hlen : codes.val.length = 16 := codes.property.1
  apply List.ext_getElem
  · simp [channelVector, hlen]
  · intro i h₁ h₂
    have hi : i < min maxChannels.toNat 16 := by simpa [channelVector] using h₁
    simp only [channelVector, List.getElem_map, List.getElem_range, List.getElem_take]
    rw [rcChannel_rcFrame address codes (by omega), List.getD_eq_getElem?_getD,
      List.getElem?_eq_getElem (by omega), Option.getD_some]

/-! ### Delivery -/

/-- The outputs once `codes` have been delivered: their values below `max_channels`, and what was
there from it on. -/
def RcOutput.deliver (maxChannels : UInt16) (codes : Codes) (out : RcOutput) : RcOutput where
  values i :=
    if i < min maxChannels.toNat 16 then convertChannelValue (codes.val.getD i 0) else out.values i
  numValues := min maxChannels 16

theorem writeChannels_rcFrame (maxChannels : UInt16) (address : UInt8) (codes : Codes)
    (out : RcOutput) :
    writeChannels maxChannels (rcPayload (rcFrame address codes)) out =
      out.deliver maxChannels codes := by
  refine RcOutput.ext (funext fun i => ?_) rfl
  simp only [writeChannels_values, RcOutput.deliver]
  split_ifs with hi
  · rw [rcChannel_rcFrame address codes (by omega)]
  · rfl

/-- A whole RC frame in an empty buffer is consumed, synchronised or not. -/
theorem feed_rcFrame (address : UInt8) (codes : Codes) (synced : Bool) :
    Reassembly.feed protocol ⟨synced, []⟩ (rcFrame address codes) =
      (⟨true, []⟩, [.frame (rcFrame address codes)]) := by
  have hw := isFrame_rcFrame address codes
  have hlook : Reassembly.scan protocol ⟨synced, rcFrame address codes⟩ =
      (⟨true, []⟩, some (.frame (rcFrame address codes))) := by
    have hfront := Reassembly.scanSynced_of_frame hw
    rw [List.drop_length, List.take_length] at hfront
    rw [Reassembly.scan, Reassembly.seek_of_header (header_rcFrame address codes)]
    by_cases hsynced : synced = true
    · rw [if_pos hsynced, hfront]
    · rw [if_neg hsynced]
      exact hfront
  rw [Reassembly.feed_of_le (Reassembly.ne_nil_of_isFrame hw) (by simp)]
  simp [State.push, hlook]

/-- What is accepted is what can be encoded. Whether the parser is synchronised or not, as long as
its buffer is empty a call of `crsf_parse` with at most 26 bytes returns true exactly when these
are the RC frame of some address and some codes below `2 ^ 11`. It then leaves those codes, scaled,
in the outputs, and an empty buffer; otherwise it leaves the outputs alone. -/
theorem crsfParse_rcFrame (maxChannels : UInt16) (read : List UInt8) (p : Parser) (out : RcOutput)
    (hp : p.currentFramePosition = 0) (hread : read.length ≤ 26) :
    ∃ r, crsfParse maxChannels read p out = .ok r ∧
      (r.ret = true ↔ ∃ address codes, read = rcFrame address codes) ∧
      (∀ address codes, read = rcFrame address codes →
        r.out = out.deliver maxChannels codes ∧ r.parser.currentFramePosition = 0 ∧
          r.parser.parserState = .synced) ∧
      (r.ret = false → r.out = out) := by
  have hbuf : p.view.buf = [] := by rw [Parser.view, hp]; rfl
  obtain ⟨p', hview, hlt, hparse⟩ :=
    crsfParse_eq maxChannels read out (hp ▸ Nat.zero_lt_succ _ : p.currentFramePosition < 30)
  have hrun := Reassembly.feed_run (P := protocol) p.view read (by rw [hbuf]; decide)
  have hstate : p.view = ⟨p.view.synced, []⟩ := by rw [← hbuf]
  -- the frame of some codes is consumed by the first look
  have hframe : ∀ address codes, read = rcFrame address codes →
      Reassembly.feed protocol p.view read = (⟨true, []⟩, [.frame (rcFrame address codes)]) := by
    rintro address codes rfl
    rw [hstate, feed_rcFrame]
  set es := (Reassembly.feed protocol p.view read).2
  refine ⟨_, hparse, ⟨fun hret => ?_, ?_⟩, fun address codes hcodes => ?_, fun hret => ?_⟩
  · -- the frame decoded fills all of the read
    have hne : (reports maxChannels es out).2 ≠ [] := by simpa using hret
    obtain ⟨d, hd⟩ := List.exists_mem_of_ne_nil _ hne
    obtain ⟨hrc, hmem, -⟩ := mem_reports hd
    have hw := hrun.isFrame hmem
    have hwindow := hrun.windows.sublist (List.singleton_sublist.mpr hmem)
    rw [hbuf, List.nil_append] at hwindow
    obtain ⟨gap, rest, hsplit⟩ : ∃ gap rest, read = gap ++ d.frame ++ rest := by
      cases hwindow with
      | cons gap _ => exact ⟨gap, _, rfl⟩
    have hlen := congrArg List.length hsplit
    simp only [List.length_append, length_of_isRcFrame hw hrc] at hlen
    have hgap : gap = [] := List.eq_nil_of_length_eq_zero (by omega)
    have hrest : rest = [] := List.eq_nil_of_length_eq_zero (by omega)
    rw [hgap, hrest, List.nil_append, List.append_nil] at hsplit
    rw [hsplit]
    exact exists_eq_rcFrame hw hrc
  · rintro ⟨address, codes, hcodes⟩
    have hes : es = [.frame (rcFrame address codes)] := congrArg Prod.snd (hframe _ _ hcodes)
    rw [hes]
    simp [reports, report, isRcFrame_rcFrame]
  · have hes : es = [.frame (rcFrame address codes)] := congrArg Prod.snd (hframe _ _ hcodes)
    rw [hframe _ _ hcodes] at hview
    refine ⟨?_, ?_, ?_⟩
    · show (reports maxChannels es out).1 = _
      rw [hes]
      simp [reports, report, isRcFrame_rcFrame, writeChannels_rcFrame]
    · have hlen := congrArg (fun s => s.buf.length) hview
      simpa [Parser.view, length_front hlt.le] using hlen
    · simpa [Parser.view] using congrArg State.synced hview
  · have hnil : (reports maxChannels es out).2 = [] := by simpa using hret
    show (reports maxChannels es out).1 = out
    rw [reports_out, hnil]
    rfl

theorem isDigits_centre : IsDigits (2 ^ 11) 16 (List.replicate 16 992) := by decide

/-- Every channel at its centre. -/
def Codes.centre : Codes := ⟨List.replicate 16 992, isDigits_centre⟩

/-- A first frame, before the parser has ever been synchronised. -/
theorem crsfParse_rcFrame_first :
    ∃ r, crsfParse 18 (rcFrame 0xC8 .centre) .init .init = .ok r ∧ r.ret = true ∧
      r.out = RcOutput.init.deliver 18 .centre := by
  obtain ⟨r, hr, hret, hout, -⟩ :=
    crsfParse_rcFrame 18 (rcFrame 0xC8 .centre) .init .init rfl (length_rcFrame _ _).le
  exact ⟨r, hr, hret.mpr ⟨_, _, rfl⟩, (hout _ _ rfl).1⟩

/-! ### Streams of messages -/

/-- What a transmitter sends. -/
inductive Message where
  /-- The channels. -/
  | rc (address : UInt8) (codes : Codes)
  /-- Any other frame. -/
  | other (frame : { w : List UInt8 // IsFrame protocol w ∧ ¬ IsRcFrame w })

namespace Message

/-- The bytes of a message. -/
def encode : Message → List UInt8
  | rc address codes => rcFrame address codes
  | other frame => frame.val

/-- The codes in a message. -/
def codes? : Message → Option Codes
  | rc _ codes => some codes
  | other _ => none

/-- The outputs once a message has been delivered. -/
def deliver (maxChannels : UInt16) (out : RcOutput) (m : Message) : RcOutput :=
  m.codes?.elim out fun codes => out.deliver maxChannels codes

theorem isFrame_encode (m : Message) : IsFrame protocol m.encode := by
  cases m with
  | rc address codes => exact isFrame_rcFrame address codes
  | other frame => exact frame.property.1

/-- What a message reports. -/
theorem report_encode (maxChannels : UInt16) (out : RcOutput) (m : Message) :
    report maxChannels (some (.frame m.encode)) out =
      (m.deliver maxChannels out, m.codes?.map fun _ => ⟨m.encode, m.deliver maxChannels out⟩) := by
  cases m with
  | rc address codes =>
    rw [encode, report, if_pos (isRcFrame_rcFrame address codes), writeChannels_rcFrame]
    rfl
  | other frame => exact if_neg frame.property.2

end Message

/-- The bytes of a list of messages. -/
def encodeMessages (ms : List Message) : List UInt8 := (ms.map Message.encode).flatten

/-- The outputs once a list of messages has been delivered. -/
def deliverMessages (maxChannels : UInt16) (ms : List Message) (out : RcOutput) : RcOutput :=
  ms.foldl (Message.deliver maxChannels) out

/-- The reports on whole messages deliver them. -/
theorem reports_messages (maxChannels : UInt16) (ms : List Message) (out : RcOutput) :
    (reports maxChannels (ms.map fun m => .frame m.encode) out).1 =
      deliverMessages maxChannels ms out := by
  induction ms generalizing out with
  | nil => rfl
  | cons m ms ih => rw [List.map_cons, reports, m.report_encode, ih]; rfl

/-- They are decoded to the codes they carry. -/
theorem channels_messages (maxChannels : UInt16) (ms : List Message) (out : RcOutput) :
    (reports maxChannels (ms.map fun m => .frame m.encode) out).2.map Decode.channels =
      (ms.filterMap Message.codes?).map fun codes =>
        (codes.val.take (min maxChannels.toNat 16)).map convertChannelValue := by
  rw [reports_channels]
  induction ms with
  | nil => rfl
  | cons m ms ih =>
    rw [List.map_cons, Reassembly.framesOf]
    cases m with
    | rc address codes =>
      have hrc := isRcFrame_rcFrame address codes
      rw [Message.encode, List.filter_cons_of_pos (by simpa using hrc), List.map_cons, ih,
        channelVector_rcFrame]
      rfl
    | other frame =>
      have hrc := frame.property.2
      rw [Message.encode, List.filter_cons_of_neg (by simpa using hrc), ih,
        List.filterMap_cons_none rfl]

/-- The buffer holds the start of what is left of the messages, and the parser is synchronised, or
will be with the first of them. -/
structure Expects (ms : List Message) (s : State UInt8) : Prop where
  isPrefix_buf : s.buf <+: encodeMessages ms
  ready : s.synced = true ∨ ∃ address codes rest, ms = .rc address codes :: rest

/-- A run over a front of the messages consumes the first of them, and keeps the rest. -/
theorem Expects.run {ms : List Message} {s s' : State UInt8} {bytes : List UInt8}
    {es : List (Event UInt8)} (hs : Expects ms s) (h : Reassembly.Run protocol s bytes es s')
    (hbytes : s.buf ++ bytes <+: encodeMessages ms) :
    ∃ k ≤ ms.length, es = (ms.take k).map (fun m => .frame m.encode) ∧
      encodeMessages (ms.take k) ++ s'.buf = s.buf ++ bytes := by
  have hframes : ∀ w ∈ ms.map Message.encode, IsFrame protocol w := by
    intro w hw
    obtain ⟨m, -, rfl⟩ := List.mem_map.mp hw
    exact m.isFrame_encode
  -- synchronised or not, the events are the first frames
  have hevents : ∃ k ≤ (ms.map Message.encode).length,
      es = ((ms.map Message.encode).take k).map .frame ∧
        ((ms.map Message.encode).take k).flatten ++ s'.buf = s.buf ++ bytes := by
    by_cases hsync : s.synced = true
    · obtain ⟨k, hk, hes, -, hbuf⟩ := h.of_frames rfl hframes hsync hbytes
      exact ⟨k, hk, hes, hbuf⟩
    · obtain ⟨address, codes, rest, rfl⟩ := hs.ready.resolve_left hsync
      exact h.of_frames_of_header rfl hframes (header_rcFrame address codes) (by simpa using hsync)
        hbytes
  obtain ⟨k, hk, hes, hbuf⟩ := hevents
  rw [List.length_map] at hk
  rw [← List.map_take, List.map_map] at hes
  rw [← List.map_take] at hbuf
  exact ⟨k, hk, hes, hbuf⟩

/-- Messages get through. Let the parser's buffer be empty, and let it be synchronised or the first
message be one with channels. However the bytes of the messages, or any front of them, are cut into
reads, the parser takes the first `k` messages and keeps the bytes after them, fewer than 30. Its
decodes are the channel codes of these messages, in order and scaled, and the outputs are what
these messages leave, whatever other frames are sent between those with channels. -/
theorem parseReads_messages (maxChannels : UInt16) (ms : List Message) (p : Parser)
    (out : RcOutput) (reads : List (List UInt8)) (hp : p.currentFramePosition = 0)
    (hready : p.parserState = .synced ∨ ∃ address codes rest, ms = .rc address codes :: rest)
    (hreads : reads.flatten <+: encodeMessages ms) :
    ∃ r k, parseReads maxChannels reads ⟨false, p, out, []⟩ = .ok r ∧ k ≤ ms.length ∧
      encodeMessages (ms.take k) ++ front r.parser.crsfFrame r.parser.currentFramePosition =
        reads.flatten ∧
      r.parser.currentFramePosition < 30 ∧
      r.out = deliverMessages maxChannels (ms.take k) out ∧
      r.decodes.map Decode.channels = ((ms.take k).filterMap Message.codes?).map fun codes =>
        (codes.val.take (min maxChannels.toNat 16)).map convertChannelValue := by
  obtain ⟨es, r, hr, hlt, hrun, hout, hdecodes⟩ := parseReads_eq maxChannels reads
    ⟨false, p, out, []⟩ (hp ▸ Nat.zero_lt_succ _ : p.currentFramePosition < 30)
  have hbuf : p.view.buf = [] := by rw [Parser.view, hp]; rfl
  have hexpects : Expects ms p.view := by
    refine ⟨by rw [hbuf]; exact List.nil_prefix, ?_⟩
    simpa [Parser.view] using hready
  obtain ⟨k, hk, rfl, hrest⟩ := hexpects.run hrun (by rwa [hbuf])
  rw [show (⟨false, p, out, []⟩ : ParseResult).parser.view.buf = [] from hbuf,
    List.nil_append] at hrest
  refine ⟨r, k, hr, hk, hrest, hlt, ?_, ?_⟩
  · rw [hout, reports_messages]
  · rw [hdecodes, List.nil_append, channels_messages]

theorem shortFrame_passed :
    IsFrame protocol [0xC8, 2, 7, 0] ∧ ¬ IsRcFrame [0xC8, 2, 7, 0] := ⟨rfl, by decide⟩

/-- A telemetry frame of the shortest kind. -/
def Message.short : Message := .other ⟨[0xC8, 2, 7, 0], shortFrame_passed⟩

/-- Two messages, cut within the first. -/
theorem parseReads_messages_cut :
    ∃ r k, parseReads 18 [(rcFrame 0xC8 .centre).take 10,
        (rcFrame 0xC8 .centre).drop 10 ++ Message.short.encode] (.init .init) = .ok r ∧ k ≤ 2 ∧
      r.out = deliverMessages 18 ([.rc 0xC8 .centre, .short].take k) .init := by
  obtain ⟨r, k, hr, hk, -, -, hout, -⟩ := parseReads_messages 18 [.rc 0xC8 .centre, .short] .init
    .init [(rcFrame 0xC8 .centre).take 10,
      (rcFrame 0xC8 .centre).drop 10 ++ Message.short.encode] rfl (.inr ⟨_, _, _, rfl⟩)
    (by rw [encodeMessages]; simp [← List.append_assoc, Message.encode])
  exact ⟨r, k, hr, hk, hout⟩

end Crsf
