import OmniRobot.Crsf.Acquisition
import OmniRobot.Crsf.Telemetry

/-!
# Telemetry frames and the parser

The telemetry encoders and the parser have their own constants, offsets and CRC routines. Here the
frames of the one are read by the other: every frame sent has the length byte and the CRC the parser
would compute, its payload reads back, and a synchronised parser consumes it without a trace.

## Main results

* `framed_telemetryFrame`: what the parser makes of a telemetry frame;
* `telemetry_framed`: the four encoders.
-/

namespace Crsf

open BigEndian (Field encodeAll readAll)

/-! ### Frames -/

/-- The bytes between the type and the CRC. -/
def payloadOf (w : List UInt8) : List UInt8 := (w.drop 3).take (w.length - 4)

/-- A frame that agrees with the parser's framing. -/
structure Framed (w : List UInt8) : Prop where
  length_eq : (byteAt w 1).toNat + 2 = w.length
  crc_eq : ∀ mem : FrameBytes, front mem w.length = w →
    crsfFrameCrc mem = .ok (byteAt w (w.length - 1))
  /-- However it is cut into reads, a synchronised parser with an empty buffer keeps the bytes until
  the last has come, and then none. No call returns true or changes an output. -/
  consumed : ∀ (maxChannels : UInt16) (p : Parser) (out : RcOutput) (reads : List (List UInt8)),
    p.parserState = .synced → p.currentFramePosition = 0 → reads.flatten <+: w →
    ∃ r, parseReads maxChannels reads ⟨false, p, out, []⟩ = .ok r ∧ r.ret = false ∧ r.out = out ∧
      r.decodes = [] ∧ r.parser.parserState = .synced ∧
      front r.parser.crsfFrame r.parser.currentFramePosition =
        if reads.flatten = w then [] else reads.flatten

section

variable {type : UInt8} {payload : List UInt8}

theorem payloadOf_telemetryFrame : payloadOf (telemetryFrame type payload) = payload := by
  rw [payloadOf, length_telemetryFrame]
  simp [telemetryFrame]

theorem byteAt_type_telemetryFrame : byteAt (telemetryFrame type payload) 2 = type := by
  simp [telemetryFrame, byteAt]

/-- The length byte counts type, payload and CRC. -/
theorem length_byte_telemetryFrame (hlen : payload.length ≤ 26) :
    (byteAt (telemetryFrame type payload) 1).toNat = payload.length + 2 := by
  have hbyte : byteAt (telemetryFrame type payload) 1 = UInt8.ofNat payload.length + 2 := by
    simp [telemetryFrame, byteAt]
  rw [hbyte, UInt8.toNat_add, UInt8.toNat_ofNat']
  have h2 : (2 : UInt8).toNat = 2 := rfl
  omega

theorem last_byte_telemetryFrame :
    byteAt (telemetryFrame type payload) (payload.length + 3) = crc8DvbS2Buf (type :: payload) := by
  simp [telemetryFrame, byteAt]

/-! ### Parsing one frame -/

/-- Without a decode no call has returned true. -/
theorem ret_of_decodes_eq_nil {maxChannels : UInt16} {reads : List (List UInt8)}
    {r r' : ParseResult} (hlt : r.parser.currentFramePosition < 30) (hret : r.ret = false)
    (h : parseReads maxChannels reads r = .ok r') (hdecodes : r'.decodes = []) :
    r'.ret = false := by
  induction reads generalizing r with
  | nil =>
    cases h
    exact hret
  | cons read reads ih =>
    obtain ⟨p, -, hlt₁, hparse⟩ := crsfParse_eq maxChannels read r.out hlt
    set decoded := reports maxChannels (Reassembly.feed protocol r.parser.view read).2 r.out
    set r₁ : ParseResult := ⟨!decoded.2.isEmpty, p, decoded.1, r.decodes ++ decoded.2⟩
    have hrest : parseReads maxChannels reads r₁ = .ok r' := by
      rw [parseReads, List.foldlM_cons, hparse] at h
      exact h
    -- later calls only add to the decodes
    obtain ⟨es, r'', hr'', -, -, -, hdecodes''⟩ := parseReads_eq maxChannels reads r₁ hlt₁
    obtain rfl : r' = r'' := Except.ok.inj (hrest.symm.trans hr'')
    rw [hdecodes, eq_comm, List.append_eq_nil_iff, List.append_eq_nil_iff] at hdecodes''
    have hnone : decoded.2 = [] := hdecodes''.1.2
    exact ih hlt₁ (by simp [r₁, hnone]) hrest

/-- A frame that is no RC frame passes a synchronised parser. -/
theorem parseReads_of_frame {w : List UInt8} (hw : Reassembly.IsFrame protocol w)
    (hrc : ¬ IsRcFrame w) (maxChannels : UInt16) {p : Parser} (out : RcOutput)
    {reads : List (List UInt8)} (hsynced : p.parserState = .synced)
    (hempty : p.currentFramePosition = 0) (hreads : reads.flatten <+: w) :
    ∃ r, parseReads maxChannels reads ⟨false, p, out, []⟩ = .ok r ∧ r.ret = false ∧ r.out = out ∧
      r.decodes = [] ∧ r.parser.parserState = .synced ∧
      front r.parser.crsfFrame r.parser.currentFramePosition =
        if reads.flatten = w then [] else reads.flatten := by
  have hlt : p.currentFramePosition < 30 := by omega
  obtain ⟨es, r, hr, -, hrun, hout, hdecodes⟩ :=
    parseReads_eq maxChannels reads ⟨false, p, out, []⟩ hlt
  change Reassembly.Run protocol p.view _ _ _ at hrun
  rw [view_of_empty hsynced hempty] at hrun
  -- the frame, when it is complete, is the only event
  have hend : (es = [] ∨ es = [.frame w]) ∧
      r.parser.view = ⟨true, if reads.flatten = w then [] else reads.flatten⟩ := by
    by_cases hall : reads.flatten = w
    · obtain ⟨hes, hlast⟩ := hrun.of_frame hw rfl hall (Reassembly.ne_nil_of_isFrame hw).symm
      exact ⟨.inr hes, by rw [hlast, if_pos hall]⟩
    · obtain ⟨hes, hlast⟩ := hrun.of_prefix hw rfl hreads hall
      exact ⟨.inl hes, by rw [hlast, if_neg hall]; rfl⟩
  have hreports : reports maxChannels es out = (out, []) := by
    rcases hend.1 with rfl | rfl
    · rfl
    · simp [reports, report, hrc]
  rw [hreports] at hout hdecodes
  have hdecodes' : r.decodes = [] := hdecodes
  have hstate : (decide (r.parser.parserState = .synced)) = true :=
    congrArg Reassembly.State.synced hend.2
  exact ⟨r, hr, ret_of_decodes_eq_nil hlt rfl hr hdecodes', hout, hdecodes',
    of_decide_eq_true hstate, congrArg Reassembly.State.buf hend.2⟩

/-- A telemetry frame agrees with the parser's framing. -/
theorem framed_telemetryFrame (htype : type ≠ typeRcChannelsPacked) (hpos : 0 < payload.length)
    (hlen : payload.length ≤ 26) : Framed (telemetryFrame type payload) := by
  have hlength : (byteAt (telemetryFrame type payload) 1).toNat = payload.length + 2 :=
    length_byte_telemetryFrame hlen
  have htotal := length_telemetryFrame type payload
  refine ⟨by omega, fun mem hmem => ?_, fun maxChannels p out reads hsynced hempty hreads => ?_⟩
  · -- both routines run over the type and the payload
    rw [htotal] at hmem
    rw [crsfFrameCrc_eq (n := payload.length + 4) (by omega) (by omega) (by rw [hmem]; omega), hmem,
      htotal]
    have hcovered : ((telemetryFrame type payload).drop 2).take (payload.length + 4 - 3) =
        type :: payload := by
      simp [telemetryFrame]
    rw [hcovered]
    exact congrArg Except.ok last_byte_telemetryFrame.symm
  · have hframe : Reassembly.IsFrame protocol (telemetryFrame type payload) :=
      isFrame_of_length (by omega) (by omega) (by omega)
    refine parseReads_of_frame hframe (fun hrc => ?_) maxChannels out hsynced hempty hreads
    rw [IsRcFrame, byteAt_type_telemetryFrame] at hrc
    exact htype hrc.1

end

/-! ### The four encoders -/

/-! The arguments are in the ranges of their fields. -/

theorem fits_uint8 (v : UInt8) : Field.Fits ⟨1, false⟩ v.toNat := by
  have hlt := v.toNat_lt
  exact Field.fits_unsigned.mpr ⟨by omega, by omega⟩

theorem fits_uint16 (v : UInt16) : Field.Fits ⟨2, false⟩ v.toNat := by
  have hlt := v.toNat_lt
  exact Field.fits_unsigned.mpr ⟨by omega, by omega⟩

theorem fits_int16 (v : Int16) : Field.Fits ⟨2, true⟩ v.toInt := by
  have hge := v.le_toInt
  have hlt := v.toInt_lt
  exact Field.fits_signed.mpr ⟨by omega, by omega⟩

theorem fits_int32 (v : Int32) : Field.Fits ⟨4, true⟩ v.toInt := by
  have hge := v.le_toInt
  have hlt := v.toInt_lt
  exact Field.fits_signed.mpr ⟨by omega, by omega⟩

/-- The arguments of a message read back from its frame. -/
theorem framed_encodeAll {type : UInt8} (htype : type ≠ typeRcChannelsPacked) {fs : List Field}
    {zs : List ℤ} (h : List.Forall₂ Field.Fits fs zs) (hpos : 0 < (encodeAll fs zs).length)
    (hlen : (encodeAll fs zs).length ≤ 26) :
    Framed (telemetryFrame type (encodeAll fs zs)) ∧
      readAll fs (payloadOf (telemetryFrame type (encodeAll fs zs))) = zs := by
  rw [payloadOf_telemetryFrame]
  exact ⟨framed_telemetryFrame htype hpos hlen, BigEndian.readAll_encodeAll h⟩

/-- The encoders and the parser agree. For all arguments (of `fuel`, those of 24 bits), whatever the
array on the stack held before, each encoder gives `write` one frame and returns whether all of it
was taken. Its length byte is the number of its bytes less 2, its last byte the `crsf_frame_CRC` of
the frame, its payload read back big-endian the arguments in order, or the first 15 characters and
one 0. A synchronised parser with an empty buffer consumes exactly that frame, in any reads: no call
returns true or changes an output, and the parser ends synchronised and empty. -/
theorem telemetry_framed (write : ℤ → List UInt8 → ℤ) (uartFd : ℤ) :
    (∀ (buf : Vector UInt8 12) (voltage current : UInt16) (fuel : Int32) (remaining : UInt8),
      0 ≤ fuel.toInt → fuel.toInt < 2 ^ 24 →
      ∃ w, crsfSendTelemetryBattery write uartFd buf voltage current fuel remaining =
          .ok ⟨w, write uartFd w = w.length⟩ ∧ Framed w ∧
        readAll batteryFields (payloadOf w) =
          [(voltage.toNat : ℤ), current.toNat, fuel.toInt, remaining.toNat]) ∧
    (∀ (buf : Vector UInt8 19) (latitude longitude : Int32)
      (groundspeed gpsHeading altitude : UInt16) (numSatellites : UInt8),
      ∃ w, crsfSendTelemetryGps write uartFd buf latitude longitude groundspeed gpsHeading altitude
          numSatellites = .ok ⟨w, write uartFd w = w.length⟩ ∧ Framed w ∧
        readAll gpsFields (payloadOf w) =
          [latitude.toInt, longitude.toInt, groundspeed.toNat, gpsHeading.toNat, altitude.toNat,
            numSatellites.toNat]) ∧
    (∀ (buf : Vector UInt8 10) (pitch roll yaw : Int16),
      ∃ w, crsfSendTelemetryAttitude write uartFd buf pitch roll yaw =
          .ok ⟨w, write uartFd w = w.length⟩ ∧ Framed w ∧
        readAll attitudeFields (payloadOf w) = [pitch.toInt, roll.toInt, yaw.toInt]) ∧
    ∀ (buf : Vector UInt8 20) (flightMode : CString),
      ∃ w, crsfSendTelemetryFlightMode write uartFd buf flightMode =
          .ok ⟨w, write uartFd w = w.length⟩ ∧ Framed w ∧
        payloadOf w = flightMode.chars.take (min 15 flightMode.chars.length) ++ [0] := by
  refine ⟨fun buf voltage current fuel remaining h₀ hlt => ?_,
    fun buf latitude longitude groundspeed gpsHeading altitude numSatellites => ?_,
    fun buf pitch roll yaw => ?_, fun buf flightMode => ?_⟩
  · have hfits : List.Forall₂ Field.Fits batteryFields
        [(voltage.toNat : ℤ), current.toNat, fuel.toInt, remaining.toNat] :=
      .cons (fits_uint16 voltage) (.cons (fits_uint16 current)
        (.cons (Field.fits_unsigned.mpr ⟨h₀, hlt⟩) (.cons (fits_uint8 remaining) .nil)))
    exact ⟨_, crsfSendTelemetryBattery_eq write uartFd buf voltage current fuel remaining,
      framed_encodeAll (by decide) hfits (by simp [encodeAll, batteryFields])
        (by simp [encodeAll, batteryFields])⟩
  · have hfits : List.Forall₂ Field.Fits gpsFields
        [latitude.toInt, longitude.toInt, groundspeed.toNat, gpsHeading.toNat, altitude.toNat,
          numSatellites.toNat] :=
      .cons (fits_int32 latitude) (.cons (fits_int32 longitude) (.cons (fits_uint16 groundspeed)
        (.cons (fits_uint16 gpsHeading) (.cons (fits_uint16 altitude)
          (.cons (fits_uint8 numSatellites) .nil)))))
    exact ⟨_, crsfSendTelemetryGps_eq write uartFd buf latitude longitude groundspeed gpsHeading
      altitude numSatellites, framed_encodeAll (by decide) hfits (by simp [encodeAll, gpsFields])
        (by simp [encodeAll, gpsFields])⟩
  · have hfits : List.Forall₂ Field.Fits attitudeFields [pitch.toInt, roll.toInt, yaw.toInt] :=
      .cons (fits_int16 pitch) (.cons (fits_int16 roll) (.cons (fits_int16 yaw) .nil))
    exact ⟨_, crsfSendTelemetryAttitude_eq write uartFd buf pitch roll yaw,
      framed_encodeAll (by decide) hfits (by simp [encodeAll, attitudeFields])
        (by simp [encodeAll, attitudeFields])⟩
  · refine ⟨_, crsfSendTelemetryFlightMode_eq write uartFd buf flightMode,
      framed_telemetryFrame (by decide) (by simp) (by simp), ?_⟩
    rw [payloadOf_telemetryFrame, ← List.take_take, List.take_length]

/-- A battery at 11.1 V and 2.5 A, with 1200 mAh drawn and 40 % left. -/
theorem telemetry_framed_battery :
    ∃ w, crsfSendTelemetryBattery (fun _ bytes => bytes.length) 1 (Vector.replicate 12 0xFF) 111 25
        1200 40 = .ok ⟨w, true⟩ ∧ Framed w ∧
      readAll batteryFields (payloadOf w) = [111, 25, 1200, 40] := by
  obtain ⟨w, hw, hframed, hread⟩ := (telemetry_framed (fun _ bytes => bytes.length) 1).1
    (Vector.replicate 12 0xFF) 111 25 1200 40 (by decide) (by decide)
  exact ⟨w, by simpa using hw, hframed, hread⟩

end Crsf
