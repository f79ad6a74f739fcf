import OmniRobot.Crsf.Acquisition

/-!
# Read sizes

How the stream is cut into reads does not matter as long as the framing of the stream meets no
bogus length byte: every cut decodes a front of the same sequence. At a bogus length the parser
drops whatever its buffer holds, and how much that is depends on the last read; from then on two
cuts may lose different frames.

## Main results

* `parseReads_ideal`: up to the first bogus length every cut decodes the ideal framing;
* `parseReads_readSize`: two cuts of one stream;
* `readSize_dependent`: a stream with a bogus length that two cuts decode differently.
-/

namespace Crsf

open Reassembly (Event ideal)

/-- The decodes of the ideal framing of a stream, which stops at the first bogus length. -/
def idealDecodes (maxChannels : UInt16) (out : RcOutput) (bytes : List UInt8) : List Decode :=
  (reports maxChannels (ideal protocol bytes) out).2

/-- Whether the ideal framing of a stream meets a bogus length. -/
def MeetsBogus (bytes : List UInt8) : Prop := Event.desync ∈ ideal protocol bytes

instance (bytes : List UInt8) : Decidable (MeetsBogus bytes) :=
  inferInstanceAs (Decidable (_ ∈ _))

/-- More events, more decodes. -/
theorem reports_mono (maxChannels : UInt16) (out : RcOutput) {es es' : List (Event UInt8)}
    (h : es <+: es') : (reports maxChannels es out).2 <+: (reports maxChannels es' out).2 := by
  obtain ⟨rest, rfl⟩ := h
  rw [reports_append]
  exact List.prefix_append _ _

/-- What any cut of a stream decodes is a front of the ideal decodes, or goes on after them
because the framing met a bogus length. -/
theorem parseReads_ideal (maxChannels : UInt16) (out : RcOutput) (reads : List (List UInt8)) :
    ∃ r, parseReads maxChannels reads (.init out) = .ok r ∧
      (r.decodes <+: idealDecodes maxChannels out reads.flatten ∨
        MeetsBogus reads.flatten ∧ idealDecodes maxChannels out reads.flatten <+: r.decodes) := by
  obtain ⟨es, r, hr, -, hrun, -, hdecodes⟩ :=
    parseReads_eq maxChannels reads (.init out) (Nat.zero_lt_succ _)
  have hdec : r.decodes = (reports maxChannels es out).2 := hdecodes
  refine ⟨r, hr, ?_⟩
  rw [hdec]
  rcases (Reassembly.follows_of_run hrun).prefix_ideal with h | ⟨hbogus, h⟩
  · exact .inl (reports_mono maxChannels out h)
  · exact .inr ⟨hbogus, reports_mono maxChannels out h⟩

/-- Read-size independence up to the first bogus length. For two cuts of one stream, one sequence
of decodes is a front of the other, or the framing of the stream meets a bogus length and both
cuts decode everything before it alike. -/
theorem parseReads_readSize (maxChannels : UInt16) (out : RcOutput)
    (reads₁ reads₂ : List (List UInt8)) (h : reads₁.flatten = reads₂.flatten) :
    ∃ r₁ r₂, parseReads maxChannels reads₁ (.init out) = .ok r₁ ∧
      parseReads maxChannels reads₂ (.init out) = .ok r₂ ∧
      ((r₁.decodes <+: r₂.decodes ∨ r₂.decodes <+: r₁.decodes) ∨
        MeetsBogus reads₁.flatten ∧
          idealDecodes maxChannels out reads₁.flatten <+: r₁.decodes ∧
          idealDecodes maxChannels out reads₁.flatten <+: r₂.decodes) := by
  obtain ⟨r₁, hr₁, h₁⟩ := parseReads_ideal maxChannels out reads₁
  obtain ⟨r₂, hr₂, h₂⟩ := parseReads_ideal maxChannels out reads₂
  rw [← h] at h₂
  refine ⟨r₁, r₂, hr₁, hr₂, ?_⟩
  rcases h₁ with h₁ | ⟨hbogus, h₁⟩
  · rcases h₂ with h₂ | ⟨-, h₂⟩
    · -- both are fronts of the ideal decodes
      exact .inl (List.prefix_or_prefix_of_prefix h₁ h₂)
    · -- the second goes on after a bogus length that the first has not come to
      exact .inl (.inl (h₁.trans h₂))
  · rcases h₂ with h₂ | ⟨-, h₂⟩
    · exact .inl (.inr (h₂.trans h₁))
    · exact .inr ⟨hbogus, h₁, h₂⟩

/-- The channel vectors a result has decoded. -/
def channelsOf : Checked ParseResult → List (List UInt16)
  | .ok r => r.decodes.map Decode.channels
  | .error _ => []

/-- A frame and one byte of the next. -/
def frameStream : List UInt8 := constFrame 68 ++ [0xC8]

/-- Read byte by byte, or in two pieces, the frame is decoded once. -/
theorem parseReads_readSize_frame :
    ∃ r₁ r₂, parseReads 18 (frameStream.map fun b => [b]) (.init .init) = .ok r₁ ∧
      parseReads 18 [frameStream.take 7, frameStream.drop 7] (.init .init) = .ok r₂ ∧
      r₁.decodes.length = 1 ∧ r₁.decodes = r₂.decodes := by
  obtain ⟨r₁, r₂, hr₁, hr₂, h⟩ := parseReads_readSize 18 .init (frameStream.map fun b => [b])
    [frameStream.take 7, frameStream.drop 7] (by decide +kernel)
  have hcut : (channelsOf (parseReads 18 (frameStream.map fun b => [b]) (.init .init))).length = 1 ∧
      (channelsOf (parseReads 18 [frameStream.take 7, frameStream.drop 7]
        (.init .init))).length = 1 := by
    decide +kernel
  rw [hr₁, hr₂, channelsOf, channelsOf, List.length_map, List.length_map] at hcut
  refine ⟨r₁, r₂, hr₁, hr₂, hcut.1, ?_⟩
  -- no length of the stream is bogus
  rcases h with (hfront | hfront) | ⟨hbogus, -⟩
  · exact hfront.eq_of_length (hcut.1.trans hcut.2.symm)
  · exact (hfront.eq_of_length (hcut.2.trans hcut.1.symm)).symm
  · exact absurd hbogus (by decide +kernel)

/-! ### A bogus length -/

/-- A valid frame, three zero bytes, whose length byte is bogus, and two more valid frames. -/
def bogusStream : List UInt8 := constFrame 0 ++ [0, 0, 0] ++ constFrame 1 ++ constFrame 2

/-- Read byte by byte, only the three zero bytes are dropped and all three frames are decoded. Read
in pieces of 25 bytes, the bogus length takes the front of the second frame with it. -/
theorem readSize_dependent :
    ¬ ∀ reads₁ reads₂ : List (List UInt8),
      (∀ read ∈ reads₁, 1 ≤ read.length ∧ read.length ≤ 25) →
      (∀ read ∈ reads₂, 1 ≤ read.length ∧ read.length ≤ 25) →
      reads₁.flatten = reads₂.flatten →
      channelsOf (parseReads 18 reads₁ (.init .init)) <+:
          channelsOf (parseReads 18 reads₂ (.init .init)) ∨
        channelsOf (parseReads 18 reads₂ (.init .init)) <+:
          channelsOf (parseReads 18 reads₁ (.init .init)) := by
  intro h
  -- both cuts decode the first frame; then the first cut goes on with the second, the other with
  -- the third
  have := h (bogusStream.map fun b => [b]) (bogusStream.toChunks 25) (by decide +kernel)
    (by decide +kernel) (by decide +kernel)
  revert this
  decide +kernel

end Crsf
