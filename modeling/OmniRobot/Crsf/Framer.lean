import OmniRobot.Crsf.Memory
import OmniRobot.Reassembly.Basic

/-!
# The CRSF parser as a reassembly buffer

`protocol` states the framing of CRSF for the `Reassembly` library: an RC header is the pair
`0x18 0x16` after any first byte, and a frame is as long as its second byte says, plus two.
`Parser.view` forgets what a parser holds beyond its first `currentFramePosition` bytes.

The refinement goes function by function. Each says that the checked C code does not fault and
that, through `Parser.view`, it does what the library does:

* `searchRcFrame_eq` and `crsfParseBuffer_eq`: one call of `crsf_parse_buffer` is one `scan`;
* `parseLoop_eq` and `crsfParse_eq`: one call of `crsf_parse` is one `feed`;
* `parseReads_eq`: successive calls are one `Run`.

The outputs are those of `reports`: each consumed frame that is an RC frame with a matching CRC
is decoded, every other event leaves them alone.
-/

namespace Crsf

open Reassembly (Event State)

/-! ### The protocol -/

/-- An RC header: any byte, then the length byte and the type of an RC frame. -/
def rcHeader : List UInt8 → Bool
  | _ :: length :: type :: _ => length = lengthRcChannels ∧ type = typeRcChannelsPacked
  | _ => false

/-- The verdict on the front of a synchronised buffer. -/
def frameVerdict : List UInt8 → Reassembly.Verdict
  | a :: length :: b :: l =>
      if 30 < length.toNat + 2 ∨ length.toNat + 2 < 4 then .bogus
      else if (a :: length :: b :: l).length < length.toNat + 2 then .wait
      else .frame (length.toNat + 2)
  | _ => .wait

theorem frameVerdict_of_short {l : List UInt8} (h : l.length < 3) : frameVerdict l = .wait := by
  match l with
  | [] | [_] | [_, _] => rfl
  | _ :: _ :: _ :: l => simp at h; omega

/-- The verdict, read off the length byte. -/
theorem frameVerdict_eq {l : List UInt8} (h : 3 ≤ l.length) :
    frameVerdict l =
      if 30 < (byteAt l 1).toNat + 2 ∨ (byteAt l 1).toNat + 2 < 4 then .bogus
      else if l.length < (byteAt l 1).toNat + 2 then .wait
      else .frame ((byteAt l 1).toNat + 2) := by
  match l with
  | [] | [_] | [_, _] => simp at h
  | _ :: _ :: _ :: l => rfl

/-- A frame has arrived whole, and is two bytes longer than its length byte says. -/
theorem frameVerdict_eq_frame_iff {l : List UInt8} {n : ℕ} :
    frameVerdict l = .frame n ↔
      n = (byteAt l 1).toNat + 2 ∧ 4 ≤ n ∧ n ≤ 30 ∧ n ≤ l.length := by
  by_cases hl : 3 ≤ l.length
  · rw [frameVerdict_eq hl]
    split_ifs with hbogus hwait
    · simp only [false_iff]
      omega
    · simp only [false_iff]
      omega
    · rw [Reassembly.Verdict.frame.injEq]
      omega
  · rw [frameVerdict_of_short (by omega)]
    simp only [reduceCtorEq, false_iff]
    omega

/-- A verdict other than `wait` stands, whatever comes after. -/
theorem frameVerdict_append {l : List UInt8} (m : List UInt8) (h : frameVerdict l ≠ .wait) :
    frameVerdict (l ++ m) = frameVerdict l := by
  have hl : 3 ≤ l.length := by
    by_contra hshort
    exact h (frameVerdict_of_short (by omega))
  rw [frameVerdict_eq hl] at h
  rw [frameVerdict_eq (by rw [List.length_append]; omega), frameVerdict_eq hl,
    byteAt_append_left m (by omega), List.length_append]
  split_ifs at h ⊢
  · rfl
  · exact absurd rfl h
  · omega
  · exact absurd rfl h
  · rfl

/-- The frame alone has the same verdict: the length byte is one of its bytes. -/
theorem frameVerdict_take {l : List UInt8} {n : ℕ} (h : frameVerdict l = .frame n) :
    frameVerdict (l.take n) = .frame n := by
  obtain ⟨hn, h4, h30, hle⟩ := frameVerdict_eq_frame_iff.mp h
  have hlen : (l.take n).length = n := by rw [List.length_take, min_eq_left hle]
  rw [frameVerdict_eq_frame_iff, byteAt_take l (by omega), hlen]
  exact ⟨hn, h4, h30, le_rfl⟩

/-- Only an incomplete buffer waits. -/
theorem length_lt_of_wait {l : List UInt8} (h : frameVerdict l = .wait) : l.length < 30 := by
  by_cases hl : 3 ≤ l.length
  · rw [frameVerdict_eq hl] at h
    split_ifs at h
    omega
  · omega

/-- CRSF, as a framing protocol. -/
def protocol : Reassembly.Protocol UInt8 where
  capacity := 30
  keep := 3
  headerLen := 3
  header := rcHeader
  verdict := frameVerdict
  keep_lt := by decide
  headerLen_le := by decide
  headerLen_pos := by decide
  length_of_header {l} h := by
    match l with
    | [] | [_] | [_, _] => simp [rcHeader] at h
    | _ :: _ :: _ :: l => simp
  header_append {l} m h := by
    match l with
    | [] | [_] | [_, _] => simp at h
    | _ :: _ :: _ :: l => rfl
  verdict_append := frameVerdict_append
  frame_bounds {l n} h := by
    obtain ⟨-, h4, -, hle⟩ := frameVerdict_eq_frame_iff.mp h
    exact ⟨by omega, hle⟩
  frame_take := frameVerdict_take
  wait_lt := length_lt_of_wait

@[simp] theorem protocol_capacity : protocol.capacity = 30 := rfl

/-! ### What the events mean -/

/-- The CRC of type and payload of a frame that states its length as `w` does. -/
def frameCrc (w : List UInt8) : UInt8 := crc8DvbS2Buf ((w.drop 2).take 23)

/-- An RC frame with a matching CRC. -/
def IsRcFrame (w : List UInt8) : Prop :=
  byteAt w 2 = typeRcChannelsPacked ∧ byteAt w 1 = lengthRcChannels ∧ byteAt w 25 = frameCrc w

instance (w : List UInt8) : Decidable (IsRcFrame w) := inferInstanceAs (Decidable (_ ∧ _))

/-- The 22 bytes of the channels. -/
def rcPayload (w : List UInt8) : List UInt8 := (w.drop 3).take 22

/-- The outputs after an event, and the decode it reports. -/
def report (maxChannels : UInt16) : Option (Event UInt8) → RcOutput → RcOutput × Option Decode
  | some (.frame w), out =>
      if IsRcFrame w then
        let out' := writeChannels maxChannels (rcPayload w) out
        (out', some ⟨w, out'⟩)
      else (out, none)
  | _, out => (out, none)

/-- The outputs after a list of events, and the decodes they report. -/
def reports (maxChannels : UInt16) : List (Event UInt8) → RcOutput → RcOutput × List Decode
  | [], out => (out, [])
  | e :: es, out =>
      let r := report maxChannels (some e) out
      let rs := reports maxChannels es r.1
      (rs.1, r.2.toList ++ rs.2)

theorem reports_append (maxChannels : UInt16) (es es' : List (Event UInt8)) (out : RcOutput) :
    reports maxChannels (es ++ es') out =
      ((reports maxChannels es' (reports maxChannels es out).1).1,
        (reports maxChannels es out).2 ++
          (reports maxChannels es' (reports maxChannels es out).1).2) := by
  induction es generalizing out with
  | nil => rfl
  | cons e es ih => simp [reports, ih]

theorem reports_toList (maxChannels : UInt16) (e : Option (Event UInt8)) (out : RcOutput) :
    reports maxChannels e.toList out =
      ((report maxChannels e out).1, (report maxChannels e out).2.toList) := by
  cases e with
  | none => rfl
  | some e => simp [reports]

/-! ### Refinement -/

/-- The part of a parser that matters. -/
def Parser.view (p : Parser) : State UInt8 :=
  ⟨p.parserState = .synced, front p.crsfFrame p.currentFramePosition⟩

theorem view_of_empty {p : Parser} (hsynced : p.parserState = .synced)
    (hempty : p.currentFramePosition = 0) : p.view = ⟨true, []⟩ := by
  rw [Parser.view, hsynced, hempty]
  rfl

/-- A bind after a computation that did not fault. -/
@[simp] theorem ok_bind {α β : Type} (a : α) (f : α → Checked β) :
    ((.ok a : Checked α) >>= f) = f a := rfl

@[simp] theorem pure_eq_ok {α : Type} (a : α) : (pure a : Checked α) = .ok a := rfl

theorem rcHeader_drop {l : List UInt8} {i : ℕ} (h : i + 2 < l.length) :
    rcHeader (l.drop i) =
      decide (byteAt l (i + 1) = lengthRcChannels ∧ byteAt l (i + 2) = typeRcChannelsPacked) := by
  have hdrop : l.drop i = l[i] :: l[i + 1] :: l[i + 2] :: l.drop (i + 3) := by
    rw [List.drop_eq_getElem_cons (by omega), List.drop_eq_getElem_cons (by omega),
      List.drop_eq_getElem_cons h]
  rw [hdrop, rcHeader, byteAt_eq_getElem h, byteAt_eq_getElem (show i + 1 < l.length by omega)]

/-- A header is told by the second and the third byte. -/
theorem rcHeader_eq {l : List UInt8} (h : 2 < l.length) :
    rcHeader l = decide (byteAt l 1 = lengthRcChannels ∧ byteAt l 2 = typeRcChannelsPacked) :=
  rcHeader_drop (i := 0) (by omega)

theorem seek_of_short {l : List UInt8} (h : l.length < 3) : Reassembly.seek protocol l = none := by
  match l with
  | [] | [_] | [_, _] => rfl
  | _ :: _ :: _ :: l => simp at h; omega

/-- The search loop finds what `seek` finds in the bytes from one before its index on. -/
theorem searchFrom_eq (mem : FrameBytes) {n : ℕ} (i : ℕ) (hn : n ≤ 30) :
    ∃ r, searchFrom mem (n - 1) (i + 1) = .ok r ∧
      ((r = none ∧ Reassembly.seek protocol ((front mem n).drop i) = none) ∨
        ∃ j, r = some (j + 1) ∧ j + 2 < n ∧
          Reassembly.seek protocol ((front mem n).drop i) = some ((front mem n).drop j)) := by
  have hlen : (front mem n).length = n := length_front hn
  rw [searchFrom]
  -- in the loop the pair at `i + 1` is read, and the header test reads it from `i` on
  by_cases hi : i + 1 < n - 1
  · have hcons : (front mem n).drop i = (front mem n)[i] :: (front mem n).drop (i + 1) :=
      List.drop_eq_getElem_cons (by omega)
    have hhead : protocol.header ((front mem n).drop i) = decide (_ ∧ _) :=
      rcHeader_drop (by omega)
    obtain ⟨r, hr, hspec⟩ := searchFrom_eq mem (i + 1) hn
    have h₁ : readByte mem (i + 1) = .ok (byteAt (front mem n) (i + 1)) :=
      readByte_eq (by omega) hn
    have h₂ : readByte mem (i + 1 + 1) = .ok (byteAt (front mem n) (i + 2)) :=
      readByte_eq (by omega) hn
    simp only [hi, if_true, h₁, h₂, ok_bind, pure_eq_ok]
    by_cases h₁ : byteAt (front mem n) (i + 1) = lengthRcChannels
    · by_cases h₂ : byteAt (front mem n) (i + 2) = typeRcChannelsPacked
      · refine ⟨some (i + 1), by simp [h₁, h₂], .inr ⟨i, rfl, by omega, ?_⟩⟩
        rw [hcons, Reassembly.seek, ← hcons, if_pos (by rw [hhead]; simp [h₁, h₂])]
      · refine ⟨r, by simpa [h₁, h₂] using hr, ?_⟩
        rwa [hcons, Reassembly.seek, ← hcons, if_neg (by rw [hhead]; simp [h₂])]
    · refine ⟨r, by simpa [h₁] using hr, ?_⟩
      rwa [hcons, Reassembly.seek, ← hcons, if_neg (by rw [hhead]; simp [h₁])]
  · exact ⟨none, by simp [hi], .inl ⟨rfl, seek_of_short (by rw [List.length_drop, hlen]; omega)⟩⟩
termination_by n - i

/-- The unsynced search is `seek`: it finds the same bytes and moves them to the front. -/
theorem searchRcFrame_eq {p : Parser} (hpos : 0 < p.currentFramePosition)
    (hn : p.currentFramePosition ≤ 30) :
    ∃ p', searchRcFrame p = .ok p' ∧ p'.currentFramePosition ≤ 30 ∧
      match Reassembly.seek protocol p.view.buf with
      | none => p' = p
      | some b => p'.view = ⟨true, b⟩ := by
  obtain ⟨r, hr, ⟨rfl, hseek⟩ | ⟨j, rfl, hj, hseek⟩⟩ :=
    searchFrom_eq p.crsfFrame 0 hn
  · exact ⟨p, by simp [searchRcFrame, usub_eq hpos, hr], hn, by
      rw [List.drop_zero] at hseek
      simp only [Parser.view, hseek]⟩
  rw [List.drop_zero] at hseek
  -- a frame at offset 0 is not moved
  by_cases hj0 : j = 0
  · subst hj0
    refine ⟨{ p with parserState := .synced }, ?_, hn, ?_⟩
    · simp [searchRcFrame, usub_eq hpos, hr, usub_eq (Nat.le_refl 1)]
    · simp only [Parser.view, hseek, List.drop_zero, decide_true]
  · obtain ⟨mem, hmove, hfront⟩ := memmove_eq p.crsfFrame
      (show j + (p.currentFramePosition - j) ≤ 30 by omega)
    refine ⟨⟨mem, p.currentFramePosition - j, .synced⟩, ?_, by simp only; omega, ?_⟩
    · simp [searchRcFrame, usub_eq hpos, hr, usub_eq (Nat.le_add_left 1 j), hj0,
        usub_eq (show j ≤ p.currentFramePosition by omega), hmove]
    · rw [Nat.add_sub_cancel' (by omega)] at hfront
      simp only [Parser.view, hseek, hfront, decide_true]

/-- The discard keeps the last three bytes of a full buffer. -/
theorem discardBuffer_eq (p : Parser) :
    ∃ p', discardBuffer p = .ok p' ∧ p'.currentFramePosition = 3 ∧
      p'.view = ⟨p.view.synced, (front p.crsfFrame 30).drop 27⟩ := by
  have hread : ∀ (mem : FrameBytes) {i : ℕ} (hi : i < 30), readByte mem i = .ok mem[i] :=
    fun mem i hi => by rw [readByte, Vector.getElem?_eq_getElem hi]
  refine ⟨⟨((p.crsfFrame.set 0 p.crsfFrame[27]).set 1 p.crsfFrame[28]).set 2 p.crsfFrame[29], 3,
    p.parserState⟩, ?_, rfl, ?_⟩
  · have hsub : usub sizeofCrsfFrame 3 = .ok 27 := rfl
    simp [discardBuffer, List.range_succ, hsub, hread, writeByte_eq]
  · have hdrop : (front p.crsfFrame 30).drop 27 =
        [p.crsfFrame[27], p.crsfFrame[28], p.crsfFrame[29]] := by
      apply List.ext_getElem
      · rw [List.length_drop, length_front (Nat.le_refl 30)]
        rfl
      · intro i h₁ h₂
        have hi : i < 3 := h₂
        obtain rfl | rfl | rfl : i = 0 ∨ i = 1 ∨ i = 2 := by omega
        all_goals simp [front]
    rw [Parser.view, hdrop, Parser.view]
    congr 1
    -- three bytes were written, and three count
    apply List.ext_getElem
    · rw [length_front (show 3 ≤ 30 by decide)]
      rfl
    · intro i h₁ h₂
      have hi : i < 3 := h₂
      obtain rfl | rfl | rfl : i = 0 ∨ i = 1 ∨ i = 2 := by omega
      all_goals simp [front]

/-- Dropping a consumed frame. -/
theorem dropFrame_eq {p : Parser} {n : ℕ} (hp : p.currentFramePosition ≤ 30)
    (hn : n ≤ p.currentFramePosition) :
    ∃ p', dropFrame p n = .ok p' ∧ p'.currentFramePosition = p.currentFramePosition - n ∧
      p'.view = ⟨p.view.synced, p.view.buf.drop n⟩ := by
  by_cases hlt : n < p.currentFramePosition
  · obtain ⟨mem, hmove, hfront⟩ := memmove_eq p.crsfFrame
      (show n + (p.currentFramePosition - n) ≤ 30 by omega)
    rw [Nat.add_sub_cancel' hn] at hfront
    exact ⟨⟨mem, p.currentFramePosition - n, p.parserState⟩,
      by simp [dropFrame, hlt, usub_eq hn, hmove], rfl, by rw [Parser.view, hfront, Parser.view]⟩
  · -- nothing is left, and nothing is moved
    have heq : n = p.currentFramePosition := by omega
    refine ⟨{ p with currentFramePosition := 0 }, by simp [dropFrame, hlt], by simp [heq], ?_⟩
    rw [Parser.view, Parser.view, List.drop_eq_nil_of_le (by rw [length_front hp, heq])]
    rfl

/-- `crsf_frame_CRC` of a frame that has arrived whole: all but address, length and the CRC. -/
theorem crsfFrameCrc_eq {mem : FrameBytes} {n : ℕ} (hn : n ≤ 30) (h4 : 4 ≤ n)
    (hlen : n = (byteAt (front mem n) 1).toNat + 2) :
    crsfFrameCrc mem = .ok (crc8DvbS2Buf (((front mem n).drop 2).take (n - 3))) := by
  have hcons : (front mem n).drop 2 = byteAt (front mem n) 2 :: (front mem n).drop 3 := by
    have hlt : 2 < (front mem n).length := by rw [length_front hn]; omega
    rw [byteAt_eq_getElem hlt, List.drop_eq_getElem_cons hlt]
  have hcount : n - 3 = (byteAt (front mem n) 1).toNat - 2 + 1 := by omega
  rw [crsfFrameCrc, readByte_eq (n := n) (by omega) hn, ok_bind,
    readByte_eq (n := n) (by omega) hn, ok_bind, foldlM_payload_eq hn crc8DvbS2 _ _ (by omega),
    crc8DvbS2Buf, hcons, hcount, List.take_succ_cons, List.foldl_cons]

/-- A complete frame is decoded exactly when it is an RC frame with a matching CRC. -/
theorem decodeFrame_eq (maxChannels : UInt16) {mem : FrameBytes} (out : RcOutput) {n : ℕ}
    (hn : n ≤ 30) (hlen : n = (byteAt (front mem n) 1).toNat + 2) (h4 : 4 ≤ n) :
    decodeFrame maxChannels mem out =
      .ok (if IsRcFrame (front mem n) then
          (true, writeChannels maxChannels (rcPayload (front mem n)) out)
        else (false, out)) := by
  have hread : ∀ i < n, readByte mem i = .ok (byteAt (front mem n) i) :=
    fun i hi => readByte_eq hi hn
  rw [decodeFrame, hread 2 (by omega), ok_bind, hread 1 (by omega), ok_bind]
  by_cases hrc : byteAt (front mem n) 2 = typeRcChannelsPacked ∧
      byteAt (front mem n) 1 = lengthRcChannels
  · -- only here is the CRC computed, over a frame of 26 bytes
    have hn26 : n = 26 := by rw [hlen, hrc.2]; decide
    subst hn26
    have hindex : 3 + (lengthRcChannels.toNat - 2) = 25 := by decide
    have hcomputed : crsfFrameCrc mem = .ok (frameCrc (front mem 26)) := crsfFrameCrc_eq hn h4 hlen
    rw [if_pos hrc, hrc.2, hindex, hread 25 (by decide), ok_bind, hcomputed, ok_bind]
    by_cases hcrc : byteAt (front mem 26) 25 = frameCrc (front mem 26)
    · have hframe : IsRcFrame (front mem 26) := ⟨hrc.1, hrc.2, hcrc⟩
      rw [if_pos hcrc, if_pos hframe, mapM_payload_eq hn 22 (by decide)]
      rfl
    · rw [if_neg hcrc, if_neg fun h => hcrc h.2.2]
      rfl
  · rw [if_neg hrc, if_neg fun h => hrc ⟨h.1, h.2.1⟩]
    rfl

/-- A look at a synchronised parser is a look at its buffer. -/
theorem parseSynced_eq (maxChannels : UInt16) {p : Parser} (out : RcOutput)
    (hp : p.currentFramePosition ≤ 30) (hs : p.parserState = .synced) :
    ∃ p', p'.view = (Reassembly.scanSynced protocol p.view.buf).1 ∧ p'.currentFramePosition < 30 ∧
      parseSynced maxChannels p out =
        .ok (p', report maxChannels (Reassembly.scanSynced protocol p.view.buf).2 out) := by
  have hlen : p.view.buf.length = p.currentFramePosition := length_front hp
  have hview : p.view = ⟨true, p.view.buf⟩ := by simp [Parser.view, hs]
  unfold parseSynced
  -- the four ways out: no header yet, a bogus length, no whole frame yet, a frame
  by_cases h3 : p.currentFramePosition < 3
  · rw [Reassembly.scanSynced_of_wait (frameVerdict_of_short (by omega))]
    exact ⟨p, hview, by omega, by simp [h3, report]⟩
  have hv := frameVerdict_eq (l := p.view.buf) (by omega)
  have hread : readByte p.crsfFrame 1 = .ok (byteAt p.view.buf 1) := readByte_eq (by omega) hp
  simp only [h3, if_false, hread, ok_bind, pure_eq_ok]
  by_cases hbogus : 30 < (byteAt p.view.buf 1).toNat + 2 ∨ (byteAt p.view.buf 1).toNat + 2 < 4
  · rw [if_pos hbogus] at hv
    rw [Reassembly.scanSynced_of_bogus hv]
    exact ⟨{ p with currentFramePosition := 0, parserState := .unsynced }, rfl, Nat.zero_lt_succ _,
      by simp only [if_pos hbogus, report]⟩
  rw [if_neg hbogus, hlen] at hv
  by_cases hwait : p.currentFramePosition < (byteAt p.view.buf 1).toNat + 2
  · rw [if_pos hwait] at hv
    rw [Reassembly.scanSynced_of_wait hv]
    exact ⟨p, hview, by omega, by simp only [if_neg hbogus, if_pos hwait, report]⟩
  rw [if_neg hwait] at hv
  rw [Reassembly.scanSynced_of_frame hv]
  obtain ⟨p', hdrop, hpos, hview'⟩ := dropFrame_eq hp (not_lt.mp hwait)
  refine ⟨p', by rw [hview', hview], by omega, ?_⟩
  have htake : p.view.buf.take ((byteAt p.view.buf 1).toNat + 2) =
      front p.crsfFrame ((byteAt p.view.buf 1).toNat + 2) := take_front (not_lt.mp hwait)
  have hbyte : byteAt (front p.crsfFrame ((byteAt p.view.buf 1).toNat + 2)) 1 =
      byteAt p.view.buf 1 := by
    rw [← htake, byteAt_eq_getElem (by simp; omega), byteAt_eq_getElem (by omega),
      List.getElem_take]
  rw [if_neg hbogus, if_neg hwait, decodeFrame_eq maxChannels out
    (n := (byteAt p.view.buf 1).toNat + 2) (by omega) (by rw [hbyte]) (by omega), ok_bind, htake]
  by_cases hframe : IsRcFrame (front p.crsfFrame ((byteAt p.view.buf 1).toNat + 2))
  · simp only [hdrop, ok_bind, report, if_pos hframe, if_true]
    rfl
  · simp [hdrop, report, hframe]

/-- One call of `crsf_parse_buffer` is one look at the buffer. -/
theorem crsfParseBuffer_eq (maxChannels : UInt16) {p : Parser} (out : RcOutput)
    (hpos : 0 < p.currentFramePosition) (hp : p.currentFramePosition ≤ 30) :
    ∃ p', p'.view = (Reassembly.scan protocol p.view).1 ∧ p'.currentFramePosition < 30 ∧
      crsfParseBuffer maxChannels p out =
        .ok (p', report maxChannels (Reassembly.scan protocol p.view).2 out) := by
  have hlen : p.view.buf.length = p.currentFramePosition := length_front hp
  unfold crsfParseBuffer Reassembly.scan
  cases hstate : p.parserState with
  | synced =>
    obtain ⟨p', hview, hlt, heq⟩ := parseSynced_eq maxChannels out hp hstate
    exact ⟨p', by simpa [Parser.view, hstate] using hview, hlt,
      by simpa [Parser.view, hstate] using heq⟩
  | unsynced =>
    -- after a search that finds a header the parser goes on as a synchronised one
    obtain ⟨p₁, hsearch, hp₁, hspec⟩ := searchRcFrame_eq hpos hp
    have hsync : p.view.synced = false := by simp [Parser.view, hstate]
    simp only [if_true, hsearch, ok_bind, hsync, Bool.false_eq_true, if_false]
    cases hseek : Reassembly.seek protocol p.view.buf with
    | none =>
      obtain rfl : p₁ = p := by simpa [hseek] using hspec
      simp only [hstate, ne_eq, reduceCtorEq, not_false_eq_true, if_true]
      -- a full buffer without a header is discarded but for three bytes
      by_cases hfull : p₁.currentFramePosition < 30
      · refine ⟨p₁, ?_, hfull, ?_⟩
        · rw [if_neg (by rw [hlen]; exact not_le.mpr hfull)]
        · rw [if_neg (not_le.mpr hfull), if_neg (by rw [hlen]; exact not_le.mpr hfull)]
          rfl
      · have h30 : p₁.currentFramePosition = 30 := by omega
        obtain ⟨p', hdiscard, h3, hview⟩ := discardBuffer_eq p₁
        refine ⟨p', ?_, by omega, ?_⟩
        · rw [hview, if_pos (by rw [hlen, h30]; exact le_rfl), hsync, hlen, h30, Parser.view, h30]
          rfl
        · rw [if_pos (not_lt.mp hfull), hdiscard, if_pos (by rw [hlen, h30]; exact le_rfl)]
          rfl
    | some b =>
      have hview₁ : p₁.view = ⟨true, b⟩ := by simpa [hseek] using hspec
      have hstate₁ : p₁.parserState = .synced := by
        have := congrArg State.synced hview₁
        simpa [Parser.view] using this
      obtain ⟨p', hview, hlt, heq⟩ := parseSynced_eq maxChannels out hp₁ hstate₁
      rw [hview₁] at hview heq
      exact ⟨p', hview, hlt, by simpa [hstate₁] using heq⟩

/-- The bytes that fit are copied behind those in the buffer. -/
theorem fill_eq {p : Parser} (frame : List UInt8) {n : ℕ} (hn : n ≤ frame.length)
    (hp : p.currentFramePosition + n ≤ 30) :
    ∃ mem, memcpy p.crsfFrame p.currentFramePosition (frame.take n) = .ok mem ∧
      (⟨mem, p.currentFramePosition + n, p.parserState⟩ : Parser).view =
        p.view.push (frame.take n) := by
  have hsrc : (frame.take n).length = n := by rw [List.length_take, min_eq_left hn]
  obtain ⟨mem, hcopy, hfront⟩ := memcpy_eq p.crsfFrame
    (show p.currentFramePosition + (frame.take n).length ≤ 30 by omega)
  rw [hsrc] at hfront
  exact ⟨mem, hcopy, by simp only [Parser.view, State.push, hfront]⟩

/-- One call of `crsf_parse`, from its `while` loop on, feeds the buffer. -/
theorem parseLoop_eq (maxChannels : UInt16) (frame : List UInt8) (r : ParseResult)
    (hr : r.parser.currentFramePosition < 30) :
    ∃ p', p'.view = (Reassembly.feed protocol r.parser.view frame).1 ∧
      p'.currentFramePosition < 30 ∧
      parseLoop maxChannels frame r =
        .ok ⟨r.ret || !(reports maxChannels (Reassembly.feed protocol r.parser.view frame).2
              r.out).2.isEmpty, p',
            (reports maxChannels (Reassembly.feed protocol r.parser.view frame).2 r.out).1,
            r.decodes ++
              (reports maxChannels (Reassembly.feed protocol r.parser.view frame).2 r.out).2⟩ := by
  have hlen : r.parser.view.buf.length = r.parser.currentFramePosition := length_front hr.le
  by_cases hne : 0 < frame.length
  · -- the fill makes progress, so the source's `current_len == 0` branch is not taken
    set n := min frame.length (30 - r.parser.currentFramePosition) with hndef
    have hn : n ≠ 0 := by omega
    obtain ⟨mem, hcopy, hpush⟩ := fill_eq (p := r.parser) frame (n := n) (by omega) (by omega)
    obtain ⟨p₁, hview₁, hlt₁, hbuf⟩ := crsfParseBuffer_eq maxChannels
      (p := ⟨mem, r.parser.currentFramePosition + n, r.parser.parserState⟩) r.out
      (by simp only; omega) (by simp only; omega)
    rw [hpush] at hview₁ hbuf
    set look := Reassembly.scan protocol (r.parser.view.push (frame.take n))
    obtain ⟨out₁, decode, hrep⟩ : ∃ out₁ decode,
      report maxChannels look.2 r.out = (out₁, decode) := ⟨_, _, rfl⟩
    -- the rest of the loop, by induction on the bytes left
    obtain ⟨p', hview', hlt', hloop⟩ := parseLoop_eq maxChannels (frame.drop n)
      ⟨r.ret || decode.isSome, p₁, out₁, r.decodes ++ decode.toList⟩ hlt₁
    simp only [hview₁] at hview' hloop
    have hfeed : Reassembly.feed protocol r.parser.view frame =
        ((Reassembly.feed protocol look.1 (frame.drop n)).1,
          look.2.toList ++ (Reassembly.feed protocol look.1 (frame.drop n)).2) := by
      have hn' : min frame.length (protocol.capacity - r.parser.view.buf.length) = n := by
        rw [hlen]; rfl
      rw [Reassembly.feed, dif_neg (by rw [hn']; exact hn)]
      simp only [hn']
      rfl
    rw [hfeed]
    refine ⟨p', hview', hlt', ?_⟩
    rw [parseLoop, if_pos hne, usub_eq hr.le, ok_bind, ← hndef]
    dsimp only
    rw [hcopy, ok_bind, dif_neg hn, hbuf, ok_bind, reports_append, reports_toList, hrep]
    refine hloop.trans ?_
    cases decode <;> simp
  · have hnil : frame = [] := List.eq_nil_of_length_eq_zero (by omega)
    subst hnil
    exact ⟨r.parser, by simp, hr, by simp [parseLoop, reports]⟩
termination_by frame.length
decreasing_by
  simp only [List.length_drop]
  omega

/-- One call of `crsf_parse` feeds the buffer; it returns whether it decoded a frame. -/
theorem crsfParse_eq (maxChannels : UInt16) (frame : List UInt8) {p : Parser} (out : RcOutput)
    (hp : p.currentFramePosition < 30) :
    ∃ p', p'.view = (Reassembly.feed protocol p.view frame).1 ∧ p'.currentFramePosition < 30 ∧
      crsfParse maxChannels frame p out =
        .ok ⟨!(reports maxChannels (Reassembly.feed protocol p.view frame).2 out).2.isEmpty, p',
            (reports maxChannels (Reassembly.feed protocol p.view frame).2 out).1,
            (reports maxChannels (Reassembly.feed protocol p.view frame).2 out).2⟩ := by
  simpa [crsfParse] using parseLoop_eq maxChannels frame ⟨false, p, out, []⟩ hp

/-- Successive calls are one run: no cut of the stream makes the parser fault. -/
theorem parseReads_eq (maxChannels : UInt16) (reads : List (List UInt8)) (r : ParseResult)
    (hr : r.parser.currentFramePosition < 30) :
    ∃ es r', parseReads maxChannels reads r = .ok r' ∧ r'.parser.currentFramePosition < 30 ∧
      Reassembly.Run protocol r.parser.view reads.flatten es r'.parser.view ∧
      r'.out = (reports maxChannels es r.out).1 ∧
      r'.decodes = r.decodes ++ (reports maxChannels es r.out).2 := by
  induction reads generalizing r with
  | nil => exact ⟨[], r, rfl, hr, .nil _, rfl, by simp [reports]⟩
  | cons read reads ih =>
    obtain ⟨p₁, hview₁, hlt₁, hparse⟩ := crsfParse_eq maxChannels read r.out hr
    have hrun := Reassembly.feed_run (P := protocol) r.parser.view read
      (by rw [show r.parser.view.buf.length = _ from length_front hr.le]; exact hr)
    rw [← hview₁] at hrun
    set es₁ := (Reassembly.feed protocol r.parser.view read).2
    -- the later calls go on from the state, the outputs and the decodes of this one
    obtain ⟨es, r', hreads, hlt, hrun', hout, hdecodes⟩ := ih
      ⟨!(reports maxChannels es₁ r.out).2.isEmpty, p₁, (reports maxChannels es₁ r.out).1,
        r.decodes ++ (reports maxChannels es₁ r.out).2⟩ hlt₁
    refine ⟨es₁ ++ es, r', ?_, hlt, hrun.append hrun', ?_, ?_⟩
    · rw [parseReads, List.foldlM_cons, hparse]
      exact hreads
    · rw [reports_append, hout]
    · rw [reports_append, hdecodes, List.append_assoc]

end Crsf
