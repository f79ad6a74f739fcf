import OmniRobot.Crsf.Acquisition
import OmniRobot.Crsf.Recovery
import OmniRobot.Cyclic.Register

/-!
# Corrupted frames

`crc8_dvb_s2` is a shift register with feedback `0xD5`, so the CRC is the checksum of a cyclic code.
Its generator has a constant term and the root 1. An RC frame with a matching CRC is a code word
from its type to its CRC, and no error in these 24 bytes that fits in 8 consecutive bits, or that
flips an odd number of bits, leads from one code word to another.

## Main results

* `crc8DvbS2Buf_toBitVec`: the CRC is a checksum;
* `crc8DvbS2Buf_xor`: the CRC is linear;
* `corruption_rejected`: the parser takes no frame with such an error.
-/

namespace Crsf

open Cyclic (Burst checksum word)

/-! ### The CRC as a checksum -/

/-- `crc8_dvb_s2` adds a byte and shifts the register eight times. -/
theorem crc8DvbS2_toBitVec (crc a : UInt8) :
    (crc8DvbS2 crc a).toBitVec = Cyclic.absorb 0xD5#8 crc.toBitVec a.toBitVec := by
  have hmsb : ∀ x : BitVec 8, x &&& 0x80#8 ≠ 0#8 ↔ x.msb = true := by decide +kernel
  have hstep : Function.Semiconj UInt8.toBitVec
      (fun crc => if crc &&& 0x80 ≠ 0 then (crc <<< 1) ^^^ 0xD5 else crc <<< 1)
      (Cyclic.shift 0xD5#8) := by
    intro crc
    have hcond : crc &&& 0x80 ≠ 0 ↔ crc.toBitVec.msb = true := by
      rw [← hmsb, ← UInt8.toBitVec_inj.ne]
      rfl
    change (if crc &&& 0x80 ≠ 0 then (crc <<< 1) ^^^ 0xD5 else crc <<< 1).toBitVec = _
    by_cases hb : crc.toBitVec.msb = true
    · rw [if_pos (hcond.mpr hb), Cyclic.shift, if_pos hb]
      rfl
    · rw [if_neg (hcond.not.mpr hb), Cyclic.shift, if_neg hb]
      rfl
  rw [crc8DvbS2, List.foldl_const, List.length_range, Cyclic.absorb]
  exact (hstep.iterate_right 8).eq (crc ^^^ a)

theorem crc8DvbS2Buf_toBitVec (buf : List UInt8) :
    (crc8DvbS2Buf buf).toBitVec = checksum 0xD5#8 (buf.map UInt8.toBitVec) := by
  induction buf using List.reverseRecOn with
  | nil => rfl
  | append_singleton buf a ih =>
    rw [List.map_append, List.map_singleton, Cyclic.checksum_concat, ← ih, ← crc8DvbS2_toBitVec,
      crc8DvbS2Buf, List.foldl_append]
    rfl

/-- The CRC is linear. -/
theorem crc8DvbS2Buf_xor {a b : List UInt8} (h : a.length = b.length) :
    crc8DvbS2Buf (List.zipWith (· ^^^ ·) a b) = crc8DvbS2Buf a ^^^ crc8DvbS2Buf b := by
  rw [← UInt8.toBitVec_inj, UInt8.toBitVec_xor, crc8DvbS2Buf_toBitVec, crc8DvbS2Buf_toBitVec,
    crc8DvbS2Buf_toBitVec, ← Cyclic.checksum_xor _ (by simpa using h), List.map_zipWith,
    List.zipWith_map]
  rfl

/-- Bytes have CRC 0 with their own CRC appended, and with no other byte. -/
theorem crc8DvbS2Buf_concat_eq_zero {buf : List UInt8} {c : UInt8} :
    crc8DvbS2Buf (buf ++ [c]) = 0 ↔ c = crc8DvbS2Buf buf := by
  rw [← UInt8.toBitVec_inj, ← UInt8.toBitVec_inj, crc8DvbS2Buf_toBitVec, crc8DvbS2Buf_toBitVec,
    List.map_append]
  exact Cyclic.checksum_concat_eq_zero (by decide)

/-! ### Frames with errors -/

/-- The bits of some bytes, in order, the most significant bit of each byte first. -/
def bitsOf (l : List UInt8) : List (ZMod 2) := word (l.map UInt8.toBitVec)

/-- The frame `w` with the bits flipped, from the type on, that are ones in `e`. -/
def corrupt (w e : List UInt8) : List UInt8 :=
  w.take 2 ++ List.zipWith (· ^^^ ·) (w.drop 2) e

/-- The CRC byte matches if and only if the bytes from the type to it have CRC 0. -/
theorem crc8DvbS2Buf_drop_eq_zero {w : List UInt8} (hlen : w.length = 26) :
    crc8DvbS2Buf (w.drop 2) = 0 ↔ byteAt w 25 = frameCrc w := by
  have hlast : (w.drop 2).drop 23 = [byteAt w 25] := by
    rw [List.drop_drop, List.drop_eq_getElem_cons (by omega), List.drop_of_length_le (by omega),
      byteAt_eq_getElem]
  rw [← List.take_append_drop 23 (w.drop 2), hlast, crc8DvbS2Buf_concat_eq_zero, frameCrc]

section

variable {w e : List UInt8} (hw : ValidFrame w) (he : e.length = 24)

include hw

theorem length_header : (w.take 2).length = 2 := by
  rw [List.length_take, hw.1]
  rfl

theorem byteAt_corrupt {i : ℕ} (hi : i < 2) : byteAt (corrupt w e) i = byteAt w i := by
  rw [corrupt, byteAt_append_left _ (by rwa [length_header hw]), byteAt_take w hi]

theorem drop_corrupt : (corrupt w e).drop 2 = List.zipWith (· ^^^ ·) (w.drop 2) e := by
  rw [corrupt, List.drop_append_of_le_length (length_header hw).ge,
    List.drop_of_length_le (length_header hw).le, List.nil_append]

include he

theorem length_corrupt : (corrupt w e).length = 26 := by
  rw [corrupt, List.length_append, length_header hw, List.length_zipWith, List.length_drop, hw.1,
    he]
  rfl

theorem isFrame_corrupt : Reassembly.IsFrame protocol (corrupt w e) := by
  have hbyte : (byteAt (corrupt w e) 1).toNat = 24 := by
    rw [byteAt_corrupt hw (by decide), hw.2.2.1]
    rfl
  have hlen := length_corrupt hw he
  exact isFrame_of_length (by omega) (by omega) (by omega)

/-- No such error leads from one code word to another. -/
theorem not_isRcFrame_corrupt (hne : ∃ a ∈ e, a ≠ 0)
    (herror : Burst 8 (bitsOf e) ∨ Odd ((bitsOf e).count 1)) : ¬ IsRcFrame (corrupt w e) := by
  intro hrc
  have hlsb : (0xD5#8).getLsbD 0 = true := by decide
  have hlen : ((w.drop 2).map UInt8.toBitVec).length = (e.map UInt8.toBitVec).length := by
    rw [List.length_map, List.length_map, List.length_drop, hw.1, he]
  have hcode : checksum 0xD5#8 ((w.drop 2).map UInt8.toBitVec) = 0#8 := by
    rw [← crc8DvbS2Buf_toBitVec, (crc8DvbS2Buf_drop_eq_zero hw.1).mpr hw.2.2.2]
    rfl
  have hcorrupt : checksum 0xD5#8 (List.zipWith (· ^^^ ·) ((w.drop 2).map UInt8.toBitVec)
      (e.map UInt8.toBitVec)) = 0#8 := by
    have hzero := (crc8DvbS2Buf_drop_eq_zero (length_corrupt hw he)).mpr hrc.2.2
    rw [drop_corrupt hw, ← UInt8.toBitVec_inj, crc8DvbS2Buf_toBitVec, List.map_zipWith] at hzero
    rwa [List.zipWith_map]
  rcases herror with hburst | hodd
  · obtain ⟨a, ha, hane⟩ := hne
    refine Cyclic.checksum_xor_ne_zero_of_burst hlsb hlen hcode ?_ hburst hcorrupt
    exact ⟨a.toBitVec, List.mem_map_of_mem ha, fun h => hane (UInt8.toBitVec_inj.mp h)⟩
  · exact Cyclic.checksum_xor_ne_zero_of_odd hlsb (by decide) hlen hcode hodd hcorrupt

end

/-- A frame that is no RC frame passes one call of a synchronised parser with an empty buffer. -/
theorem crsfParse_of_frame {w : List UInt8} (hw : Reassembly.IsFrame protocol w)
    (hrc : ¬ IsRcFrame w) (maxChannels : UInt16) {p : Parser} (out : RcOutput)
    (hsynced : p.parserState = .synced) (hempty : p.currentFramePosition = 0) :
    ∃ p', crsfParse maxChannels w p out = .ok ⟨false, p', out, []⟩ := by
  obtain ⟨p', -, -, hparse⟩ := crsfParse_eq maxChannels w out (p := p) (by omega)
  rw [view_of_empty hsynced hempty, Reassembly.feed_frame hw] at hparse
  refine ⟨p', hparse.trans ?_⟩
  simp [reports, report, hrc]

/-- Corruption is rejected. The CRC is linear: the CRC of the xor of two strings of the same length
is the xor of their CRCs. Flip bits of an RC frame with a matching CRC, in the 24 bytes from its
type to its CRC, either within 8 consecutive bits or an odd number of them: a synchronised parser
with an empty buffer returns false for the frame and leaves the outputs as they were. -/
theorem corruption_rejected :
    (∀ a b : List UInt8, a.length = b.length →
      crc8DvbS2Buf (List.zipWith (· ^^^ ·) a b) = crc8DvbS2Buf a ^^^ crc8DvbS2Buf b) ∧
    ∀ w e : List UInt8, ValidFrame w → e.length = 24 → (∃ a ∈ e, a ≠ 0) →
      Burst 8 (bitsOf e) ∨ Odd ((bitsOf e).count 1) →
      ∀ (maxChannels : UInt16) (p : Parser) (out : RcOutput),
        p.parserState = .synced → p.currentFramePosition = 0 →
        ∃ r, crsfParse maxChannels (corrupt w e) p out = .ok r ∧ r.ret = false ∧ r.out = out := by
  refine ⟨fun a b h => crc8DvbS2Buf_xor h, ?_⟩
  intro w e hw he hne herror maxChannels p out hsynced hempty
  obtain ⟨p', hparse⟩ := crsfParse_of_frame (isFrame_corrupt hw he)
    (not_isRcFrame_corrupt hw he hne herror) maxChannels out hsynced hempty
  exact ⟨_, hparse, rfl, rfl⟩

/-- Two flipped bits, the last of one byte and the first of the next. -/
def twoBits : List UInt8 := List.replicate 4 0 ++ [0x01, 0x80] ++ List.replicate 18 0

/-- They are noticed. -/
theorem corruption_rejected_twoBits :
    ∃ r, crsfParse 18 (corrupt (constFrame 68) twoBits) ⟨Vector.replicate _ 0, 0, .synced⟩ .init =
      .ok r ∧ r.ret = false ∧ r.out = .init := by
  have hburst : Burst 8 (bitsOf twoBits) := ⟨39, by decide +kernel⟩
  exact corruption_rejected.2 (constFrame 68) twoBits (by decide +kernel) (by decide) (by decide)
    (.inl hburst) 18 _ .init rfl rfl

end Crsf
