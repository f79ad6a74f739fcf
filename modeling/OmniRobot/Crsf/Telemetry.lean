import OmniRobot.Crsf.Framer
import OmniRobot.Numeric.BigEndian

/-!
# The telemetry encoders

The second half of `crsf.cpp`: frames that the flight controller sends back over the UART. Each
`crsf_send_telemetry_*` builds one frame in an array on the stack and hands it to `write`. The
array is not initialised, so its first contents are an argument here; accesses are checked as those
of the parser are.

## Main results

* `Writes`, `sendFrame_eq`: what the write functions do to a frame in the making;
* `crsfSendTelemetryBattery_eq`, `crsfSendTelemetryGps_eq`, `crsfSendTelemetryAttitude_eq`,
  `crsfSendTelemetryFlightMode_eq`: each encoder sends one `telemetryFrame`.
-/

namespace Crsf

open BigEndian (Field encode encodeAll)

/-! ### Constants -/

/-- `CRSF_SYNC_BYTE`. -/
abbrev crsfSyncByte : UInt8 := 0xC8

/-- `crsf_frame_type_t::gps`. -/
abbrev typeGps : UInt8 := 0x02

/-- `crsf_frame_type_t::battery_sensor`. -/
abbrev typeBatterySensor : UInt8 := 0x08

/-- `crsf_frame_type_t::attitude`. -/
abbrev typeAttitude : UInt8 := 0x1E

/-- `crsf_frame_type_t::flight_mode`. -/
abbrev typeFlightMode : UInt8 := 0x21

/-- `crsf_payload_size_t::gps`. -/
abbrev payloadSizeGps : ℕ := 15

/-- `crsf_payload_size_t::battery_sensor`. -/
abbrev payloadSizeBatterySensor : ℕ := 8

/-- `crsf_payload_size_t::attitude`. -/
abbrev payloadSizeAttitude : ℕ := 6

/-! ### Writes to a buffer -/

section

variable {n : ℕ}

/-- `buf` and `offset`. -/
structure OutBuffer (n : ℕ) where
  buf : Vector UInt8 n
  offset : ℕ

/-- `buf[i] = b`. -/
def store (buf : Vector UInt8 n) (i : ℕ) (b : UInt8) : Checked (Vector UInt8 n) :=
  if h : i < n then .ok (buf.set i b h) else .error .outOfBounds

/-- The `len` bytes from `buf + offset` on. -/
def load (buf : Vector UInt8 n) (offset len : ℕ) : Checked (List UInt8) :=
  if offset + len ≤ n then .ok ((buf.toList.drop offset).take len) else .error .outOfBounds

/-- An `int` that is stored to a byte. -/
def lowByte (x : Int32) : UInt8 := x.toUInt32.toUInt8

/-- `write_uint8_t`. -/
def writeUint8 (value : UInt8) (w : OutBuffer n) : Checked (OutBuffer n) := do
  return ⟨← store w.buf w.offset value, w.offset + 1⟩

/-- Stores to `buf[offset]`, `buf[offset + 1]` and so on, and an `offset` moved past them. -/
def writeBytes (bytes : List UInt8) (w : OutBuffer n) : Checked (OutBuffer n) :=
  bytes.foldlM (fun w b => writeUint8 b w) w

/-- `write_uint16_t`. -/
def writeUint16 (value : UInt16) : OutBuffer n → Checked (OutBuffer n) :=
  writeBytes [(value >>> 8).toUInt8, (value &&& 0xff).toUInt8]

/-- `write_uint24_t`. -/
def writeUint24 (value : Int32) : OutBuffer n → Checked (OutBuffer n) :=
  writeBytes [lowByte (value >>> 16), lowByte (value >>> 8 &&& 0xff), lowByte (value &&& 0xff)]

/-- `write_int32_t`. -/
def writeInt32 (value : Int32) : OutBuffer n → Checked (OutBuffer n) :=
  writeBytes [lowByte (value >>> 24), lowByte (value >>> 16 &&& 0xff),
    lowByte (value >>> 8 &&& 0xff), lowByte (value &&& 0xff)]

/-- `write_frame_header`. -/
def writeFrameHeader (type payloadSize : UInt8) (w : OutBuffer n) : Checked (OutBuffer n) := do
  let w ← writeUint8 crsfSyncByte w
  let w ← writeUint8 (payloadSize + 2) w
  writeUint8 type w

/-- `write_frame_crc`: the CRC does not include the address and the length. -/
def writeFrameCrc (bufSize : ℕ) (w : OutBuffer n) : Checked (OutBuffer n) := do
  writeUint8 (crc8DvbS2Buf (← load w.buf 2 (bufSize - 3))) w

/-- What an encoder hands to `write`, and what it returns. -/
structure Sent where
  bytes : List UInt8
  ret : Bool

/-- `return write(uart_fd, buf, offset) == offset`. -/
def send (write : ℤ → List UInt8 → ℤ) (uartFd : ℤ) (w : OutBuffer n) : Checked Sent := do
  let bytes ← load w.buf 0 w.offset
  return ⟨bytes, write uartFd bytes = w.offset⟩

end

/-! ### Encoders -/

section

variable (write : ℤ → List UInt8 → ℤ) (uartFd : ℤ)

/-- `crsf_send_telemetry_battery`. -/
def crsfSendTelemetryBattery (buf : Vector UInt8 (payloadSizeBatterySensor + 4))
    (voltage current : UInt16) (fuel : Int32) (remaining : UInt8) : Checked Sent := do
  let w ← writeFrameHeader typeBatterySensor (UInt8.ofNat payloadSizeBatterySensor) ⟨buf, 0⟩
  let w ← writeUint16 voltage w
  let w ← writeUint16 current w
  let w ← writeUint24 fuel w
  let w ← writeUint8 remaining w
  let w ← writeFrameCrc (payloadSizeBatterySensor + 4) w
  send write uartFd w

/-- `crsf_send_telemetry_gps`. -/
def crsfSendTelemetryGps (buf : Vector UInt8 (payloadSizeGps + 4)) (latitude longitude : Int32)
    (groundspeed gpsHeading altitude : UInt16) (numSatellites : UInt8) : Checked Sent := do
  let w ← writeFrameHeader typeGps (UInt8.ofNat payloadSizeGps) ⟨buf, 0⟩
  let w ← writeInt32 latitude w
  let w ← writeInt32 longitude w
  let w ← writeUint16 groundspeed w
  let w ← writeUint16 gpsHeading w
  let w ← writeUint16 altitude w
  let w ← writeUint8 numSatellites w
  let w ← writeFrameCrc (payloadSizeGps + 4) w
  send write uartFd w

/-- `crsf_send_telemetry_attitude`. The angles are converted to `uint16_t`. -/
def crsfSendTelemetryAttitude (buf : Vector UInt8 (payloadSizeAttitude + 4))
    (pitch roll yaw : Int16) : Checked Sent := do
  let w ← writeFrameHeader typeAttitude (UInt8.ofNat payloadSizeAttitude) ⟨buf, 0⟩
  let w ← writeUint16 pitch.toUInt16 w
  let w ← writeUint16 roll.toUInt16 w
  let w ← writeUint16 yaw.toUInt16 w
  let w ← writeFrameCrc (payloadSizeAttitude + 4) w
  send write uartFd w

/-- A C string: the bytes before the terminating 0. -/
structure CString where
  chars : List UInt8
  ne_zero : ∀ b ∈ chars, b ≠ 0

/-- The bytes of the string in memory. -/
def CString.bytes (s : CString) : List UInt8 := s.chars ++ [0]

/-- `crsf_send_telemetry_flight_mode`. An object in memory is at most `INT_MAX` bytes large, so the
`int` that holds `strlen(flight_mode) + 1` does not overflow. -/
def crsfSendTelemetryFlightMode (buf : Vector UInt8 (16 + 4)) (flightMode : CString) :
    Checked Sent := do
  let maxLength := 16
  let length := flightMode.chars.length + 1
  let length := if maxLength < length then maxLength else length
  let w ← writeFrameHeader typeFlightMode (UInt8.ofNat length) ⟨buf, 0⟩
  -- the `memcpy` of `length` bytes
  let w ← writeBytes (flightMode.bytes.take length) w
  -- "ensure null-terminated string"
  let buf ← store w.buf (w.offset - 1) 0
  let w ← writeFrameCrc (length + 4) ⟨buf, w.offset⟩
  send write uartFd w

end

/-! ### What a write does -/

section

variable {n : ℕ}

/-- The bytes written so far. -/
def OutBuffer.Holds (w : OutBuffer n) (l : List UInt8) : Prop :=
  w.offset = l.length ∧ w.buf.toList.take l.length = l

/-- A function that writes some bytes, if there is room for them. -/
def Writes (f : OutBuffer n → Checked (OutBuffer n)) (bytes : List UInt8) : Prop :=
  ∀ ⦃w l⦄, w.Holds l → l.length + bytes.length ≤ n → ∃ w', f w = .ok w' ∧ w'.Holds (l ++ bytes)

theorem store_eq (buf : Vector UInt8 n) {i : ℕ} (hi : i < n) (b : UInt8) :
    store buf i b = .ok (buf.set i b hi) := dif_pos hi

/-- A store changes one byte. -/
theorem take_set_succ {buf : Vector UInt8 n} {i : ℕ} (hi : i < n) (b : UInt8) :
    (buf.set i b hi).toList.take (i + 1) = buf.toList.take i ++ [b] := by
  have hlen : i < (buf.toList.set i b).length := by simpa using hi
  rw [Vector.toList_set, List.take_succ_eq_append_getElem hlen, List.take_set_of_le le_rfl,
    List.getElem_set_self]

theorem writes_uint8 (b : UInt8) : Writes (n := n) (writeUint8 b) [b] := by
  intro w l h hroom
  obtain ⟨hoffset, htake⟩ := h
  rw [List.length_singleton] at hroom
  refine ⟨⟨w.buf.set w.offset b (by omega), w.offset + 1⟩, ?_, ?_, ?_⟩
  · rw [writeUint8, store_eq w.buf (by omega) b]
    rfl
  · simp [hoffset]
  · rw [List.length_append, List.length_singleton, ← hoffset, take_set_succ, hoffset, htake]

theorem writes_nil : Writes (n := n) pure [] := by
  intro w l h _
  exact ⟨w, rfl, by rwa [List.append_nil]⟩

/-- One write after the other. -/
theorem Writes.bind {f g : OutBuffer n → Checked (OutBuffer n)} {a b : List UInt8}
    (hf : Writes f a) (hg : Writes g b) : Writes (fun w => f w >>= g) (a ++ b) := by
  intro w l h hroom
  rw [List.length_append] at hroom
  obtain ⟨w₁, hw₁, h₁⟩ := hf h (by omega)
  obtain ⟨w₂, hw₂, h₂⟩ := hg h₁ (by rw [List.length_append]; omega)
  refine ⟨w₂, ?_, by rwa [← List.append_assoc]⟩
  change f w >>= g = .ok w₂
  rw [hw₁, ok_bind, hw₂]

theorem writes_bytes (bytes : List UInt8) : Writes (n := n) (writeBytes bytes) bytes := by
  induction bytes with
  | nil => exact writes_nil
  | cons b bytes ih => exact (writes_uint8 b).bind ih

theorem writes_frameHeader (type payloadSize : UInt8) :
    Writes (n := n) (writeFrameHeader type payloadSize)
      [crsfSyncByte, payloadSize + 2, type] :=
  (writes_uint8 _).bind ((writes_uint8 _).bind (writes_uint8 _))

/-! ### The bytes of an integer -/

theorem lowByte_eq (x : Int32) : lowByte x = UInt8.ofInt x.toInt := by
  apply UInt8.toNat_inj.mp
  have hint : x.toInt = Int.bmod x.toUInt32.toNat (2 ^ 32) := BitVec.toInt_eq_toNat_bmod x.toBitVec
  have hemod : x.toInt % (2 ^ 32 : ℕ) = x.toUInt32.toNat % (2 ^ 32 : ℕ) := by
    rw [hint, Int.bmod_emod]
  rw [lowByte, UInt32.toNat_toUInt8, UInt8.ofInt, UInt8.toNat_ofNat']
  omega

/-- The mask changes nothing in the byte stored. -/
theorem lowByte_and (x : Int32) : lowByte (x &&& 0xff) = lowByte x := by
  apply UInt8.toNat_inj.mp
  have hmask : (x &&& 0xff).toUInt32.toNat = x.toUInt32.toNat % 2 ^ 8 :=
    Nat.and_two_pow_sub_one_eq_mod _ 8
  rw [lowByte, lowByte, UInt32.toNat_toUInt8, UInt32.toNat_toUInt8, hmask]
  omega

/-- A shift of a negative `int` rounds down. -/
theorem toInt_shiftRight (x s : Int32) {k : ℕ} (hs : (s.toBitVec.smod 32).toNat = k) :
    (x >>> s).toInt = x.toInt / 2 ^ k := by
  change (x.toBitVec.sshiftRight (s.toBitVec.smod 32).toNat).toInt = x.toBitVec.toInt / 2 ^ k
  rw [hs, BitVec.toInt_sshiftRight, Int.shiftRight_eq_div_pow]
  norm_num

theorem writes_uint16 (value : UInt16) :
    Writes (n := n) (writeUint16 value) (encode 2 value.toNat) := by
  have hhigh : (value >>> 8).toUInt8 = UInt8.ofInt (value.toNat / 256 ^ 1) := by
    apply UInt8.toNat_inj.mp
    rw [UInt16.toNat_toUInt8, UInt8.ofInt, UInt8.toNat_ofNat', UInt16.toNat_shiftRight,
      Nat.shiftRight_eq_div_pow]
    have h8 : (8 : UInt16).toNat % 16 = 8 := rfl
    rw [h8]
    omega
  have hlow : (value &&& 0xff).toUInt8 = UInt8.ofInt (value.toNat / 256 ^ 0) := by
    apply UInt8.toNat_inj.mp
    have hmask : (value &&& 0xff).toNat = value.toNat % 2 ^ 8 :=
      Nat.and_two_pow_sub_one_eq_mod _ 8
    rw [UInt16.toNat_toUInt8, UInt8.ofInt, UInt8.toNat_ofNat', hmask]
    omega
  have hbytes : [(value >>> 8).toUInt8, (value &&& 0xff).toUInt8] = encode 2 value.toNat := by
    rw [hhigh, hlow]
    rfl
  rw [← hbytes]
  exact writes_bytes _

/-- A signed argument has the bytes of its two's complement. -/
theorem writes_int16 (value : Int16) :
    Writes (n := n) (writeUint16 value.toUInt16) (encode 2 value.toInt) := by
  have hint : value.toInt = Int.bmod value.toUInt16.toNat (2 ^ 16) :=
    BitVec.toInt_eq_toNat_bmod value.toBitVec
  have hemod : value.toInt % (2 ^ 16 : ℕ) = value.toUInt16.toNat % (2 ^ 16 : ℕ) := by
    rw [hint, Int.bmod_emod]
  have hencode : encode 2 value.toInt = encode 2 value.toUInt16.toNat :=
    BigEndian.encode_congr hemod
  rw [hencode]
  exact writes_uint16 value.toUInt16

/-- One byte is sent as it is. -/
theorem encode_one (b : UInt8) : encode 1 b.toNat = [b] := by
  have hbyte : UInt8.ofInt b.toNat = b := by
    apply UInt8.toNat_inj.mp
    have hlt := b.toNat_lt
    rw [UInt8.ofInt, UInt8.toNat_ofNat']
    omega
  simp [encode, hbyte]

theorem writes_uint24 (value : Int32) :
    Writes (n := n) (writeUint24 value) (encode 3 value.toInt) := by
  have hbytes : [lowByte (value >>> 16), lowByte (value >>> 8 &&& 0xff),
      lowByte (value &&& 0xff)] = encode 3 value.toInt := by
    simp only [lowByte_and]
    simp only [lowByte_eq, toInt_shiftRight value 16 (k := 16) rfl,
      toInt_shiftRight value 8 (k := 8) rfl]
    norm_num [encode]
  rw [← hbytes]
  exact writes_bytes _

theorem writes_int32 (value : Int32) :
    Writes (n := n) (writeInt32 value) (encode 4 value.toInt) := by
  have hbytes : [lowByte (value >>> 24), lowByte (value >>> 16 &&& 0xff),
      lowByte (value >>> 8 &&& 0xff), lowByte (value &&& 0xff)] = encode 4 value.toInt := by
    simp only [lowByte_and]
    simp only [lowByte_eq, toInt_shiftRight value 24 (k := 24) rfl,
      toInt_shiftRight value 16 (k := 16) rfl, toInt_shiftRight value 8 (k := 8) rfl]
    norm_num [encode]
  rw [← hbytes]
  exact writes_bytes _

/-! ### A whole frame -/

/-- A telemetry frame: header, type, payload and CRC. -/
def telemetryFrame (type : UInt8) (payload : List UInt8) : List UInt8 :=
  [crsfSyncByte, UInt8.ofNat payload.length + 2, type] ++ payload ++
    [crc8DvbS2Buf (type :: payload)]

theorem length_telemetryFrame (type : UInt8) (payload : List UInt8) :
    (telemetryFrame type payload).length = payload.length + 4 := by
  simp [telemetryFrame]

/-- What `write` is given, and whether it has taken all of it. -/
def Sent.of (write : ℤ → List UInt8 → ℤ) (uartFd : ℤ) (bytes : List UInt8) : Sent :=
  ⟨bytes, write uartFd bytes = bytes.length⟩

/-- Bytes that have been written can be read again. -/
theorem OutBuffer.Holds.load_eq {w : OutBuffer n} {l : List UInt8} (h : w.Holds l)
    {offset len : ℕ} (hle : offset + len ≤ l.length) (hn : offset + len ≤ n) :
    load w.buf offset len = .ok ((l.drop offset).take len) := by
  have hload : load w.buf offset len = .ok ((w.buf.toList.drop offset).take len) := if_pos hn
  have htake : (l.drop offset).take len = (w.buf.toList.drop offset).take len := by
    conv_lhs => rw [← h.2]
    rw [List.drop_take, List.take_take, min_eq_left (by omega)]
  rw [hload, htake]

/-- The last byte written can be replaced. -/
theorem OutBuffer.Holds.store_last {w : OutBuffer n} {l : List UInt8} {x : UInt8}
    (h : w.Holds (l ++ [x])) (b : UInt8) :
    ∃ buf, store w.buf (w.offset - 1) b = .ok buf ∧ OutBuffer.Holds ⟨buf, w.offset⟩ (l ++ [b]) := by
  obtain ⟨hoffset, htake⟩ := h
  rw [List.length_append, List.length_singleton] at hoffset htake
  have hlast : w.offset - 1 = l.length := by omega
  have hroom : l.length < n := by
    have hlen := congrArg List.length htake
    simp at hlen
    omega
  have hfront : w.buf.toList.take l.length = l := by
    have hcut := congrArg (List.take l.length) htake
    rwa [List.take_take, min_eq_left (Nat.le_succ _), List.take_left] at hcut
  refine ⟨w.buf.set l.length b hroom, by rw [hlast, store_eq], ?_, ?_⟩
  · rw [List.length_append, List.length_singleton, hoffset]
  · rw [List.length_append, List.length_singleton, take_set_succ, hfront]

/-- The steps every encoder has: a header, the payload, the CRC over type and payload, and the
call of `write`. -/
theorem sendFrame_eq (write : ℤ → List UInt8 → ℤ) (uartFd : ℤ) (buf : Vector UInt8 n)
    (type : UInt8) {payload : List UInt8} {f : OutBuffer n → Checked (OutBuffer n)}
    (hf : Writes f payload) (hn : payload.length + 4 ≤ n) :
    (do
      let w ← writeFrameHeader type (UInt8.ofNat payload.length) ⟨buf, 0⟩
      let w ← f w
      let w ← writeFrameCrc (payload.length + 4) w
      send write uartFd w) =
      .ok (.of write uartFd (telemetryFrame type payload)) := by
  have hstart : OutBuffer.Holds ⟨buf, 0⟩ [] := ⟨rfl, rfl⟩
  have hheader := writes_frameHeader (n := n) type (UInt8.ofNat payload.length)
  obtain ⟨w₁, hw₁, h₁⟩ := hheader hstart (by simp; omega)
  obtain ⟨w₂, hw₂, h₂⟩ := hf h₁ (by simp; omega)
  -- the CRC is computed over what has been written after address and length
  have hload : load w₂.buf 2 (payload.length + 4 - 3) = .ok (type :: payload) := by
    rw [h₂.load_eq (by simp; omega) (by omega)]
    simp
  obtain ⟨w₃, hw₃, h₃⟩ := writes_uint8 (crc8DvbS2Buf (type :: payload)) h₂ (by simp; omega)
  have hframe : [] ++ [crsfSyncByte, UInt8.ofNat payload.length + 2, type] ++ payload ++
      [crc8DvbS2Buf (type :: payload)] = telemetryFrame type payload := rfl
  rw [hframe] at h₃
  have hlen := length_telemetryFrame type payload
  have hsend : load w₃.buf 0 w₃.offset = .ok (telemetryFrame type payload) := by
    rw [h₃.load_eq (by rw [h₃.1]; omega) (by rw [h₃.1]; omega), h₃.1]
    simp
  rw [hw₁, ok_bind, hw₂, ok_bind, writeFrameCrc, hload, ok_bind, hw₃, ok_bind, send, hsend,
    ok_bind, h₃.1]
  rfl

end

/-! ### What each encoder sends -/

/-- Voltage, current, fuel and what remains. -/
def batteryFields : List Field := [⟨2, false⟩, ⟨2, false⟩, ⟨3, false⟩, ⟨1, false⟩]

/-- Latitude, longitude, ground speed, heading, altitude and the number of satellites. -/
def gpsFields : List Field :=
  [⟨4, true⟩, ⟨4, true⟩, ⟨2, false⟩, ⟨2, false⟩, ⟨2, false⟩, ⟨1, false⟩]

/-- Pitch, roll and yaw. -/
def attitudeFields : List Field := [⟨2, true⟩, ⟨2, true⟩, ⟨2, true⟩]

section

variable (write : ℤ → List UInt8 → ℤ) (uartFd : ℤ)

theorem crsfSendTelemetryBattery_eq (buf : Vector UInt8 12) (voltage current : UInt16)
    (fuel : Int32) (remaining : UInt8) :
    crsfSendTelemetryBattery write uartFd buf voltage current fuel remaining =
      .ok (.of write uartFd (telemetryFrame typeBatterySensor (encodeAll batteryFields
        [voltage.toNat, current.toNat, fuel.toInt, remaining.toNat]))) := by
  have hf : Writes (n := 12) (fun w => writeUint16 voltage w >>= fun w => writeUint16 current w >>=
      fun w => writeUint24 fuel w >>= writeUint8 remaining)
      (encodeAll batteryFields [voltage.toNat, current.toNat, fuel.toInt, remaining.toNat]) := by
    simp only [encodeAll, batteryFields, List.append_nil, encode_one]
    exact (writes_uint16 voltage).bind ((writes_uint16 current).bind
      ((writes_uint24 fuel).bind (writes_uint8 remaining)))
  have hsend := sendFrame_eq write uartFd buf typeBatterySensor hf le_rfl
  simp only [bind_assoc] at hsend
  exact hsend

theorem crsfSendTelemetryGps_eq (buf : Vector UInt8 19) (latitude longitude : Int32)
    (groundspeed gpsHeading altitude : UInt16) (numSatellites : UInt8) :
    crsfSendTelemetryGps write uartFd buf latitude longitude groundspeed gpsHeading altitude
        numSatellites =
      .ok (.of write uartFd (telemetryFrame typeGps (encodeAll gpsFields
        [latitude.toInt, longitude.toInt, groundspeed.toNat, gpsHeading.toNat, altitude.toNat,
          numSatellites.toNat]))) := by
  have hf : Writes (n := 19) (fun w => writeInt32 latitude w >>= fun w => writeInt32 longitude w >>=
      fun w => writeUint16 groundspeed w >>= fun w => writeUint16 gpsHeading w >>=
      fun w => writeUint16 altitude w >>= writeUint8 numSatellites)
      (encodeAll gpsFields [latitude.toInt, longitude.toInt, groundspeed.toNat, gpsHeading.toNat,
        altitude.toNat, numSatellites.toNat]) := by
    simp only [encodeAll, gpsFields, List.append_nil, encode_one]
    exact (writes_int32 latitude).bind ((writes_int32 longitude).bind
      ((writes_uint16 groundspeed).bind ((writes_uint16 gpsHeading).bind
        ((writes_uint16 altitude).bind (writes_uint8 numSatellites)))))
  have hsend := sendFrame_eq write uartFd buf typeGps hf le_rfl
  simp only [bind_assoc] at hsend
  exact hsend

theorem crsfSendTelemetryAttitude_eq (buf : Vector UInt8 10) (pitch roll yaw : Int16) :
    crsfSendTelemetryAttitude write uartFd buf pitch roll yaw =
      .ok (.of write uartFd (telemetryFrame typeAttitude (encodeAll attitudeFields
        [pitch.toInt, roll.toInt, yaw.toInt]))) := by
  have hf : Writes (n := 10) (fun w => writeUint16 pitch.toUInt16 w >>=
      fun w => writeUint16 roll.toUInt16 w >>= writeUint16 yaw.toUInt16)
      (encodeAll attitudeFields [pitch.toInt, roll.toInt, yaw.toInt]) := by
    simp only [encodeAll, attitudeFields, List.append_nil]
    exact (writes_int16 pitch).bind ((writes_int16 roll).bind (writes_int16 yaw))
  have hsend := sendFrame_eq write uartFd buf typeAttitude hf le_rfl
  simp only [bind_assoc] at hsend
  exact hsend

/-- At most 15 characters are sent, and a 0. -/
theorem crsfSendTelemetryFlightMode_eq (buf : Vector UInt8 20) (flightMode : CString) :
    crsfSendTelemetryFlightMode write uartFd buf flightMode =
      .ok (.of write uartFd (telemetryFrame typeFlightMode (flightMode.chars.take 15 ++ [0]))) := by
  -- the string is cut to 16 bytes, and the last of them becomes the 0
  have hlength : (if 16 < flightMode.chars.length + 1 then 16 else flightMode.chars.length + 1) =
      (flightMode.chars.take 15 ++ [0]).length := by
    rw [List.length_append, List.length_take]
    split_ifs <;> simp <;> omega
  obtain ⟨x, hx⟩ : ∃ x, flightMode.bytes.take (flightMode.chars.take 15 ++ [0]).length =
      flightMode.chars.take 15 ++ [x] := by
    have hlen : flightMode.bytes.length = flightMode.chars.length + 1 := by simp [CString.bytes]
    have hlast : (flightMode.chars.take 15).length < flightMode.bytes.length := by
      rw [hlen, List.length_take]
      omega
    refine ⟨flightMode.bytes[(flightMode.chars.take 15).length], ?_⟩
    rw [List.length_append, List.length_singleton, List.take_succ_eq_append_getElem hlast]
    congr 1
    rw [CString.bytes, List.take_append_of_le_length (List.length_take_le' _ _),
      List.length_take, ← List.take_take]
    simp
  have hf : Writes (n := 20) (fun w => writeBytes (flightMode.chars.take 15 ++ [x]) w >>= fun w =>
      store w.buf (w.offset - 1) 0 >>= fun buf => pure ⟨buf, w.offset⟩)
      (flightMode.chars.take 15 ++ [0]) := by
    intro w l h hroom
    obtain ⟨w₁, hw₁, h₁⟩ := writes_bytes (flightMode.chars.take 15 ++ [x]) h (by simpa using hroom)
    rw [← List.append_assoc] at h₁
    obtain ⟨buf', hstore, h₂⟩ := h₁.store_last 0
    rw [← List.append_assoc]
    refine ⟨⟨buf', w₁.offset⟩, ?_, h₂⟩
    change writeBytes _ w >>= _ = _
    rw [hw₁, ok_bind, hstore]
    rfl
  have hsend := sendFrame_eq write uartFd buf typeFlightMode hf (by simp)
  simp only [bind_assoc, pure_bind] at hsend
  unfold crsfSendTelemetryFlightMode
  dsimp only
  rw [hlength, hx]
  exact hsend

end

end Crsf
