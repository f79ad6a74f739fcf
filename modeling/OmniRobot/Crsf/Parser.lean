import Mathlib.Data.Nat.Digits.Defs
import Mathlib.Data.Rat.Floor
import OmniRobot.Numeric.Trunc

/-!
# The CRSF parser

`crsf.cpp` and `common_rc.cpp` as the firmware runs them: the CRC, the 30-byte frame buffer, the
unsynced search, and `crsfParse`, which `loop()` calls with whatever bytes the UART had.

The buffer is a memory of 30 bytes. Reads, copies and unsigned subtractions are checked: one that
would leave the buffer or fall below zero is a `Fault`, so that a result `.ok` says the C code
stayed inside its memory. The caller's `values` array is a function of the index.

Each successful `crsfParseBuffer` is also reported as a `Decode`: the frame it decoded and the
outputs it left. The C code keeps no such list; nothing here reads it.
-/

namespace Crsf

/-! ### CRC -/

/-- `crc8_dvb_s2`: one byte through the shift register with polynomial `0xD5`. -/
def crc8DvbS2 (crc a : UInt8) : UInt8 :=
  (List.range 8).foldl
    (fun crc _ => if crc &&& 0x80 ≠ 0 then (crc <<< 1) ^^^ 0xD5 else crc <<< 1) (crc ^^^ a)

/-- `crc8_dvb_s2_buf`: the CRC of a whole buffer. -/
def crc8DvbS2Buf (buf : List UInt8) : UInt8 := buf.foldl crc8DvbS2 0

/-! ### Constants -/

/-- `CRSF_PAYLOAD_SIZE_MAX`, four bytes less than `CRSF_FRAME_SIZE_MAX`. -/
def crsfPayloadSizeMax : ℕ := 30 - 4

/-- `sizeof(crsf_frame_header_t)`: the address and the length byte. -/
abbrev sizeofCrsfFrameHeader : ℕ := 2

/-- `sizeof(crsf_frame_t)`: the header, the type, and the payload with the CRC at its end. -/
abbrev sizeofCrsfFrame : ℕ := 30

example : sizeofCrsfFrame = sizeofCrsfFrameHeader + 1 + (crsfPayloadSizeMax + 1) := rfl

/-- `crsf_frame_type_t::rc_channels_packed`. -/
abbrev typeRcChannelsPacked : UInt8 := 0x16

/-- `crsf_payload_size_t::rc_channels + 2`, the length byte of an RC frame. -/
abbrev lengthRcChannels : UInt8 := 22 + 2

/-! ### Checked memory -/

/-- What the C code must never do. -/
inductive Fault where
  /-- An access outside the 30 bytes of `crsf_frame`, or outside another buffer. -/
  | outOfBounds
  /-- An unsigned subtraction below zero. -/
  | underflow
  deriving DecidableEq, Repr

/-- A computation of the parser, which may fault. -/
abbrev Checked := Except Fault

/-- The bytes of `crsf_frame`. -/
abbrev FrameBytes := Vector UInt8 sizeofCrsfFrame

/-- `crsf_frame_ptr[i]`. -/
def readByte (mem : FrameBytes) (i : ℕ) : Checked UInt8 :=
  match mem[i]? with
  | some b => .ok b
  | none => .error .outOfBounds

/-- `crsf_frame_ptr[i] = b`. -/
def writeByte (mem : FrameBytes) (i : ℕ) (b : UInt8) : Checked FrameBytes :=
  if h : i < sizeofCrsfFrame then .ok (mem.set i b h) else .error .outOfBounds

/-- `memcpy(crsf_frame_ptr + offset, src, n)` for the `n` bytes `src`. -/
def memcpy (mem : FrameBytes) (offset : ℕ) (src : List UInt8) : Checked FrameBytes :=
  if offset + src.length ≤ sizeofCrsfFrame then
    .ok (Vector.ofFn fun i => if offset ≤ i then src.getD (i - offset) mem[i] else mem[i])
  else .error .outOfBounds

/-- `memmove(crsf_frame_ptr, crsf_frame_ptr + offset, n)`. -/
def memmove (mem : FrameBytes) (offset n : ℕ) : Checked FrameBytes :=
  if offset + n ≤ sizeofCrsfFrame then
    .ok (Vector.ofFn fun i => if (i : ℕ) < n then mem.toList.getD (i + offset) 0 else mem[i])
  else .error .outOfBounds

/-- An unsigned `a - b`. -/
def usub (a b : ℕ) : Checked ℕ := if b ≤ a then .ok (a - b) else .error .underflow

/-! ### State -/

/-- `crsf_parser_state_t`. -/
inductive ParserState where
  | unsynced
  | synced
  deriving DecidableEq, Repr

/-- The parser's static variables. -/
structure Parser where
  crsfFrame : FrameBytes
  currentFramePosition : ℕ
  parserState : ParserState

/-- The parser at power-on. -/
def Parser.init : Parser := ⟨Vector.replicate _ 0, 0, .unsynced⟩

/-- The caller's `values` and `*num_values`. -/
@[ext]
structure RcOutput where
  values : ℕ → UInt16
  numValues : UInt16

/-- `_raw_rc_values` and `_raw_rc_count` at power-on. -/
def RcOutput.init : RcOutput := ⟨fun _ => 0, 0⟩

/-- A successful `crsf_parse_buffer`: the bytes of the frame and the outputs it left. -/
structure Decode where
  frame : List UInt8
  out : RcOutput

/-! ### Decoding -/

/-- `crsf_frame_CRC`: the CRC of type and payload. -/
def crsfFrameCrc (mem : FrameBytes) : Checked UInt8 := do
  let type ← readByte mem 2
  let length ← readByte mem 1
  (List.range (length.toNat - 2)).foldlM
    (fun crc i => do return crc8DvbS2 crc (← readByte mem (3 + i))) (crc8DvbS2 0 type)

/-- Field `chan<k>` of `crsf_payload_RC_channels_packed_t`: 11 bits, packed least significant
first. -/
def rcChannel (payload : List UInt8) (k : ℕ) : ℕ :=
  (Nat.ofDigits 256 (payload.map UInt8.toNat) >>> (11 * k)) % 2 ^ 11

/-- The static `scale` of `convert_channel_value`. -/
def convertScale : ℚ := (2012 - 988) / (1811 - 172)

/-- The static `offset` of `convert_channel_value`. -/
def convertOffset : ℚ := 988 - 172 * convertScale

/-- `convert_channel_value`: from RC to PWM. -/
def convertChannelValue (chanValue : ℕ) : UInt16 :=
  UInt16.ofNat (truncZ (convertScale * chanValue + convertOffset)).toNat

/-- `if (max_channels > k) { values[k] = convert_channel_value(rc_channels->chan<k>); }`. -/
def writeChannel (maxChannels : UInt16) (payload : List UInt8) (values : ℕ → UInt16) (k : ℕ) :
    ℕ → UInt16 :=
  if k < maxChannels.toNat then
    Function.update values k (convertChannelValue (rcChannel payload k))
  else values

/-- The outputs after a frame with a matching CRC: the sixteen fields in order. -/
def writeChannels (maxChannels : UInt16) (payload : List UInt8) (out : RcOutput) : RcOutput where
  values := (List.range 16).foldl (writeChannel maxChannels payload) out.values
  numValues := min maxChannels 16

/-- The test and decoding of a complete frame. -/
def decodeFrame (maxChannels : UInt16) (mem : FrameBytes) (out : RcOutput) :
    Checked (Bool × RcOutput) := do
  let type ← readByte mem 2
  let length ← readByte mem 1
  if type = typeRcChannelsPacked ∧ length = lengthRcChannels then
    let crc ← readByte mem (3 + (length.toNat - 2))
    if crc = (← crsfFrameCrc mem) then
      let payload ← (List.range 22).mapM fun i => readByte mem (3 + i)
      return (true, writeChannels maxChannels payload out)
    else
      -- "CRC check failed": the frame is skipped, the parser stays synced
      return (false, out)
  else
    return (false, out)

/-! ### The buffer -/

/-- The `for` loop of the unsynced search, from index `i`. -/
def searchFrom (mem : FrameBytes) (bound i : ℕ) : Checked (Option ℕ) :=
  if i < bound then do
    let length ← readByte mem i
    let found ← if length = lengthRcChannels then do
        pure (decide ((← readByte mem (i + 1)) = typeRcChannelsPacked))
      else pure false
    if found then return some i else searchFrom mem bound (i + 1)
  else return none
termination_by bound - i

/-- The unsynced search for an RC frame, and the move of what it finds to the front. -/
def searchRcFrame (p : Parser) : Checked Parser := do
  let bound ← usub p.currentFramePosition 1
  match ← searchFrom p.crsfFrame bound 1 with
  | none => return p
  | some i =>
    let frameOffset ← usub i 1
    if frameOffset ≠ 0 then
      let n ← usub p.currentFramePosition frameOffset
      let mem ← memmove p.crsfFrame frameOffset n
      return ⟨mem, n, .synced⟩
    else return { p with parserState := .synced }

/-- The discard of a full buffer in which no RC frame was found: the last 3 bytes are kept. -/
def discardBuffer (p : Parser) : Checked Parser := do
  let mem ← (List.range 3).foldlM
    (fun mem i => do writeByte mem i (← readByte mem ((← usub sizeofCrsfFrame 3) + i))) p.crsfFrame
  return { p with crsfFrame := mem, currentFramePosition := 3 }

/-- Drop a consumed frame from the front of the buffer. -/
def dropFrame (p : Parser) (currentFrameLength : ℕ) : Checked Parser := do
  if currentFrameLength < p.currentFramePosition then
    let n ← usub p.currentFramePosition currentFrameLength
    let mem ← memmove p.crsfFrame currentFrameLength n
    return { p with crsfFrame := mem, currentFramePosition := n }
  else return { p with currentFramePosition := 0 }

/-- `crsf_parse_buffer` once the parser is synchronised. -/
def parseSynced (maxChannels : UInt16) (p : Parser) (out : RcOutput) :
    Checked (Parser × RcOutput × Option Decode) := do
  if p.currentFramePosition < 3 then
    return (p, out, none)
  else
    let length ← readByte p.crsfFrame 1
    let currentFrameLength := length.toNat + sizeofCrsfFrameHeader
    if sizeofCrsfFrame < currentFrameLength ∨ currentFrameLength < 4 then
      -- "frame too long or bogus -> discard everything and go into unsynced state"
      return ({ p with currentFramePosition := 0, parserState := .unsynced }, out, none)
    else if p.currentFramePosition < currentFrameLength then
      return (p, out, none)
    else
      let (ret, out) ← decodeFrame maxChannels p.crsfFrame out
      let decode := if ret then some ⟨p.crsfFrame.toList.take currentFrameLength, out⟩ else none
      return (← dropFrame p currentFrameLength, out, decode)

/-- `crsf_parse_buffer`, with the decode it reports. -/
def crsfParseBuffer (maxChannels : UInt16) (p : Parser) (out : RcOutput) :
    Checked (Parser × RcOutput × Option Decode) := do
  let p ← if p.parserState = .unsynced then searchRcFrame p else pure p
  if p.parserState ≠ .synced then
    if sizeofCrsfFrame ≤ p.currentFramePosition then
      return (← discardBuffer p, out, none)
    else return (p, out, none)
  else parseSynced maxChannels p out

/-- What `crsf_parse` returns and leaves behind. -/
structure ParseResult where
  ret : Bool
  parser : Parser
  out : RcOutput
  /-- The frames decoded during the call, in order. -/
  decodes : List Decode

/-- The `while` loop of `crsf_parse`, with `ret` and the decodes so far. -/
def parseLoop (maxChannels : UInt16) (frame : List UInt8) (r : ParseResult) :
    Checked ParseResult :=
  if 0 < frame.length then do
    let room ← usub sizeofCrsfFrame r.parser.currentFramePosition
    let currentLen := min frame.length room
    let mem ← memcpy r.parser.crsfFrame r.parser.currentFramePosition (frame.take currentLen)
    let position := r.parser.currentFramePosition + currentLen
    if _h : currentLen = 0 then
      -- "parser bug: no progress": reset the parser
      return { r with ret := false, parser := ⟨mem, 0, .unsynced⟩ }
    else
      let (p, out, decode) ←
        crsfParseBuffer maxChannels ⟨mem, position, r.parser.parserState⟩ r.out
      parseLoop maxChannels (frame.drop currentLen)
        ⟨r.ret || decode.isSome, p, out, r.decodes ++ decode.toList⟩
  else return r
termination_by frame.length
decreasing_by
  simp only [List.length_drop]
  omega

/-- `crsf_parse`. -/
def crsfParse (maxChannels : UInt16) (frame : List UInt8) (p : Parser) (out : RcOutput) :
    Checked ParseResult :=
  parseLoop maxChannels frame ⟨false, p, out, []⟩

/-! ### Successive calls -/

/-- Successive calls of `crsf_parse`, one for each read, with the decodes so far. -/
def parseReads (maxChannels : UInt16) (reads : List (List UInt8)) (r : ParseResult) :
    Checked ParseResult :=
  reads.foldlM (fun r read => do
    let r' ← crsfParse maxChannels read r.parser r.out
    return { r' with decodes := r.decodes ++ r'.decodes }) r

/-- The parser and the caller's outputs before the first call. -/
def ParseResult.init (out : RcOutput) : ParseResult := ⟨false, .init, out, []⟩

end Crsf
