import OmniRobot.Crsf.Soundness
import OmniRobot.Reassembly.Stream

/-!
# Recovery of the radio link

A transmitter that repeats one RC frame `f` for ever sends an endless periodic stream. Once
synchronised, rightly or not, the parser walks over it from frame start to frame start by the
length bytes it happens to read. It is released where the length byte is bogus, because the
search that follows starts afresh, and where the frame start is a copy of `f`.

Nothing forces the walk to get there. If a byte of the payload is 24, a walk that takes it for a
length byte steps from copy to copy of the same false frame for ever, each with a wrong CRC or
the wrong type.

## Main results

* `consumes_of_noTrap`: if every walk is released, enough copies of `f` get `f` consumed;
* `not_mem_of_trapped`: a walk that is never released never consumes `f`;
* `recovers_iff_noTrap`: recovery from every reachable state, exactly when no walk is trapped;
* `not_recovers`: a frame that is locked out.
-/

namespace Crsf

open Reassembly (Event State Run framesOf scanSynced seek slice length_slice slice_append)

/-! ### The repeated frame -/

/-- The endless repetition of a frame. -/
def repeated (f : List UInt8) (i : ℕ) : UInt8 := byteAt f (i % 26)

/-- The length byte of a frame that starts at `q`. -/
def lengthAt (f : List UInt8) (q : ℕ) : ℕ := (repeated f (q + 1)).toNat

/-- A length that a synchronised parser accepts. -/
def Plausible (n : ℕ) : Prop := 2 ≤ n ∧ n ≤ 28

instance (n : ℕ) : Decidable (Plausible n) := inferInstanceAs (Decidable (_ ∧ _))

/-- The next frame start after `q`, by the length byte there. -/
def skip (f : List UInt8) (q : ℕ) : ℕ := q + (lengthAt f q + 2)

/-- Where the walk ends: at a bogus length, or at a copy of the frame. -/
def Released (f : List UInt8) (q : ℕ) : Prop :=
  ¬ Plausible (lengthAt f q) ∨ slice (repeated f) q 26 = f

instance (f : List UInt8) (q : ℕ) : Decidable (Released f q) :=
  inferInstanceAs (Decidable (_ ∨ _))

/-- The walk from a frame start never ends. -/
def Trapped (f : List UInt8) (q : ℕ) : Prop := ∀ k, ¬ Released f ((skip f)^[k] q)

/-- From every frame start, the walk is released. -/
def NoTrap (f : List UInt8) : Prop := ∀ q, ∃ k, Released f ((skip f)^[k] q)

/-- A whole RC frame with a matching CRC. -/
def ValidFrame (f : List UInt8) : Prop := f.length = 26 ∧ IsRcFrame f

instance (f : List UInt8) : Decidable (ValidFrame f) := inferInstanceAs (Decidable (_ ∧ _))

theorem slice_repeated_add (f : List UInt8) (q k n : ℕ) :
    slice (repeated f) (q + 26 * n) k = slice (repeated f) q k := by
  apply List.ext_getElem (by simp)
  intro i h₁ h₂
  rw [Reassembly.getElem_slice, Reassembly.getElem_slice, repeated, repeated,
    show q + 26 * n + i = q + i + 26 * n by omega, Nat.add_mul_mod_self_left]

theorem lengthAt_add (f : List UInt8) (q n : ℕ) : lengthAt f (q + 26 * n) = lengthAt f q := by
  rw [lengthAt, show q + 26 * n + 1 = q + 1 + 26 * n by omega, repeated,
    Nat.add_mul_mod_self_left, lengthAt, repeated]

/-- The walk has the period of the stream. -/
theorem iterate_skip_add (f : List UInt8) (q n k : ℕ) :
    (skip f)^[k] (q + 26 * n) = (skip f)^[k] q + 26 * n := by
  induction k with
  | zero => rfl
  | succ k ih =>
    rw [Function.iterate_succ_apply', Function.iterate_succ_apply', ih, skip, lengthAt_add, skip]
    omega

theorem released_add (f : List UInt8) (q n : ℕ) : Released f (q + 26 * n) ↔ Released f q := by
  rw [Released, Released, lengthAt_add, slice_repeated_add]

/-- One period of frame starts decides whether a walk can be trapped. -/
theorem noTrap_iff (f : List UInt8) :
    NoTrap f ↔ ∀ q < 26, ∃ k, Released f ((skip f)^[k] q) := by
  refine ⟨fun h q _ => h q, fun h q => ?_⟩
  obtain ⟨k, hk⟩ := h (q % 26) (Nat.mod_lt q (by decide))
  refine ⟨k, ?_⟩
  rwa [← Nat.mod_add_div q 26, iterate_skip_add, released_add]

section Valid

variable {f : List UInt8} (hf : ValidFrame f)

include hf

theorem slice_repeated_zero : slice (repeated f) 0 26 = f := by
  apply List.ext_getElem (by simp [hf.1])
  intro i h₁ h₂
  rw [Reassembly.getElem_slice, repeated, Nat.zero_add, Nat.mod_eq_of_lt (by simpa using h₁),
    byteAt_eq_getElem]

theorem flatten_replicate (n : ℕ) :
    (List.replicate n f).flatten = slice (repeated f) 0 (26 * n) := by
  induction n with
  | zero => rfl
  | succ n ih =>
    have hlast : slice (repeated f) (0 + 26 * n) 26 = f := by
      rw [slice_repeated_add, slice_repeated_zero hf]
    rw [List.replicate_succ', List.flatten_append, ih, Nat.mul_succ, ← slice_append, hlast]
    simp

/-- A copy of the frame states the length of an RC frame. -/
theorem lengthAt_of_copy {q : ℕ} (h : slice (repeated f) q 26 = f) : lengthAt f q = 24 := by
  have h₁ : byteAt (slice (repeated f) q 26) 1 = repeated f (q + 1) := by
    rw [byteAt_eq_getElem (by simp), Reassembly.getElem_slice]
  rw [lengthAt, ← h₁, h, hf.2.2.1]
  rfl

end Valid

/-! ### One step on the repeated frame -/

section Step

variable {f : List UInt8} {q k : ℕ}

theorem frameVerdict_slice (hk : 3 ≤ k) :
    frameVerdict (slice (repeated f) q k) =
      if Plausible (lengthAt f q) then
        if k < lengthAt f q + 2 then .wait else .frame (lengthAt f q + 2)
      else .bogus := by
  have h₁ : byteAt (slice (repeated f) q k) 1 = repeated f (q + 1) := by
    rw [byteAt_eq_getElem (by simp; omega), Reassembly.getElem_slice]
  rw [frameVerdict_eq (by simpa using hk), h₁, length_slice, ← ite_not]
  exact if_congr (by simp only [Plausible, lengthAt]; omega) rfl rfl

/-- A report about a slice: synchronisation is lost, or the walk takes one step. -/
theorem scanSynced_slice {s : State UInt8} {e : Event UInt8}
    (h : scanSynced protocol (slice (repeated f) q k) = (s, some e)) :
    (¬ Plausible (lengthAt f q) ∧ e = .desync ∧ s = ⟨false, []⟩) ∨
      (Plausible (lengthAt f q) ∧ lengthAt f q + 2 ≤ k ∧
        e = .frame (slice (repeated f) q (lengthAt f q + 2)) ∧
        s = ⟨true, slice (repeated f) (skip f q) (k - (lengthAt f q + 2))⟩) := by
  have hverdict : protocol.verdict (slice (repeated f) q k) =
      frameVerdict (slice (repeated f) q k) := rfl
  by_cases hk : 3 ≤ k
  · -- the length byte has arrived
    rw [frameVerdict_slice hk] at hverdict
    split_ifs at hverdict with hok hwait
    · rw [Reassembly.scanSynced_of_wait hverdict] at h
      cases h
    · rw [Reassembly.scanSynced_of_frame hverdict, Reassembly.take_slice _ _ _ (by omega),
        Reassembly.drop_slice _ _ _ (by omega)] at h
      cases h
      exact .inr ⟨hok, by omega, rfl, rfl⟩
    · rw [Reassembly.scanSynced_of_bogus hverdict] at h
      cases h
      exact .inl ⟨hok, rfl, rfl⟩
  · rw [frameVerdict_of_short (by simp; omega)] at hverdict
    rw [Reassembly.scanSynced_of_wait hverdict] at h
    cases h

theorem rcHeader_slice (hk : 3 ≤ k) :
    rcHeader (slice (repeated f) q k) =
      decide (repeated f (q + 1) = lengthRcChannels ∧
        repeated f (q + 2) = typeRcChannelsPacked) := by
  have hbyte : ∀ i < k, byteAt (slice (repeated f) q k) i = repeated f (q + i) := by
    intro i hi
    rw [byteAt_eq_getElem (by simpa using hi), Reassembly.getElem_slice]
  rw [rcHeader_eq (by simpa using by omega), hbyte _ (by omega), hbyte _ (by omega)]

end Step

/-! ### Recovery -/

/-- A frame start whose length byte is that of an RC frame comes back with the period of the
stream: if it is not a copy of the frame, the walk is trapped there. -/
theorem trapped_of_lengthAt {f : List UInt8} {q : ℕ} (h24 : lengthAt f q = 24)
    (hcopy : slice (repeated f) q 26 ≠ f) : Trapped f q := by
  intro k
  -- a hop over 26 bytes lands on the same byte of the next copy
  have hskip : (skip f)^[k] q = q + 26 * k := by
    induction k with
    | zero => rfl
    | succ k ih =>
      rw [Function.iterate_succ_apply', ih, skip, lengthAt_add, h24]
      omega
  rw [hskip, Released, lengthAt_add, h24, slice_repeated_add]
  exact not_or.mpr ⟨not_not.mpr (by decide), hcopy⟩

/-- If no walk is trapped, every RC header in the stream is that of a copy of the frame. -/
theorem copy_of_header {f : List UInt8} (hno : NoTrap f) {q : ℕ}
    (h : repeated f (q + 1) = lengthRcChannels) : slice (repeated f) q 26 = f := by
  by_contra hcopy
  obtain ⟨k, hk⟩ := hno q
  exact trapped_of_lengthAt (by rw [lengthAt, h]; rfl) hcopy k hk

section Recovery

variable {f : List UInt8} (hf : ValidFrame f)

include hf

/-- From a copy of the frame on, it is consumed. -/
theorem consumes_of_copy {s s' : State UInt8} {es : List (Event UInt8)} {q k l : ℕ}
    (h : Run protocol s (slice (repeated f) (q + k) l) es s') (hs : s.synced = true)
    (hbuf : s.buf = slice (repeated f) q k) (hcopy : slice (repeated f) q 26 = f)
    (hlt : s'.buf.length < 30) (hlen : 30 ≤ k + l) : f ∈ framesOf es := by
  rcases h.first_of_synced hs with ⟨-, rfl⟩ | ⟨b₁, b₂, e, es', s₁, hbytes, rfl, -, hfirst, -⟩
  · rw [State.push_buf, hbuf, slice_append, length_slice] at hlt
    omega
  · have hb₁ := (Reassembly.eq_slice_of_append hbytes.symm).1
    rw [hbuf, hb₁, slice_append] at hfirst
    have h24 := lengthAt_of_copy hf hcopy
    rcases scanSynced_slice hfirst with ⟨hbogus, -⟩ | ⟨-, -, rfl, -⟩
    · exact absurd (by rw [h24]; decide) hbogus
    · rw [h24, hcopy]
      simp [framesOf]

/-- Three bytes of a copy of the frame, or more, are an RC header. -/
theorem header_slice_mul (n : ℕ) {j : ℕ} (hj : 3 ≤ j) :
    protocol.header (slice (repeated f) (26 * n) j) = true := by
  change rcHeader _ = true
  rw [← Nat.zero_add (26 * n), slice_repeated_add, rcHeader_slice hj, decide_eq_true_iff]
  exact ⟨hf.2.2.1, hf.2.1⟩

/-- 28 bytes of the stream hold a header, that of the next copy of the frame. -/
theorem seek_slice_ne_none {q n : ℕ} (hn : 28 ≤ n) :
    seek protocol (slice (repeated f) q n) ≠ none := by
  intro hnone
  obtain ⟨m, hqm, hmq⟩ : ∃ m, q ≤ 26 * m ∧ 26 * m ≤ q + 25 := ⟨(q + 25) / 26, by omega, by omega⟩
  have hheader := header_slice_mul hf m (j := n - (26 * m - q)) (by omega)
  have := Reassembly.seek_eq_none_iff.mp hnone _ (Reassembly.slice_suffix hqm (by omega))
  rw [hheader] at this
  cases this

/-- The search ends at a copy of the frame, at the next one or before it. -/
theorem copy_of_seek (hno : NoTrap f) {q n : ℕ} {m : List UInt8}
    (hm : seek protocol (slice (repeated f) q n) = some m) :
    ∃ y, y + m.length = q + n ∧ y ≤ q + 25 ∧ m = slice (repeated f) y m.length ∧
      slice (repeated f) y 26 = f := by
  have hmlen : 3 ≤ m.length := Reassembly.headerLen_le_of_seek hm
  obtain ⟨hle, hslice⟩ := Reassembly.eq_slice_of_suffix (Reassembly.seek_suffix hm)
  refine ⟨q + (n - m.length), by omega, ?_, hslice, ?_⟩
  · -- the next copy has a header, and no earlier start than `m` has one
    by_contra hfar
    obtain ⟨x, hqx, hxq⟩ : ∃ x, q ≤ 26 * x ∧ 26 * x ≤ q + 25 :=
      ⟨(q + 25) / 26, by omega, by omega⟩
    have hfound := Reassembly.header_eq_false_of_seek hm
      (Reassembly.slice_suffix (g := repeated f) (k := n) hqx (by omega))
      (by simp only [length_slice]; omega)
    rw [header_slice_mul hf x (by omega)] at hfound
    cases hfound
  · have hhead : rcHeader m = true := Reassembly.header_of_seek hm
    rw [hslice, rcHeader_slice hmlen, decide_eq_true_iff] at hhead
    exact copy_of_header hno hhead.1

/-- The search finds a copy of the frame, and the copy is consumed. -/
theorem consumes_of_searching (hno : NoTrap f) {s s' : State UInt8} {es : List (Event UInt8)}
    {q k l : ℕ} (h : Run protocol s (slice (repeated f) (q + k) l) es s')
    (hs : s.synced = false) (hbuf : s.buf = slice (repeated f) q k)
    (hk : k < 30) (hlt : s'.buf.length < 30) (hlen : 60 ≤ k + l) : f ∈ framesOf es := by
  have hne : slice (repeated f) (q + k) l ≠ [] := by
    intro hnil
    have := congrArg List.length hnil
    rw [length_slice, List.length_nil] at this
    omega
  rcases h.first_of_searching hs hne with hnone | ⟨b₁, b₂, m, e, es', s₁, hbytes, rfl, hm, hfirst,
    hrest⟩
  · rw [hbuf, slice_append] at hnone
    exact absurd hnone (seek_slice_ne_none hf (by omega))
  · obtain ⟨hb₁, hb₂⟩ := Reassembly.eq_slice_of_append hbytes.symm
    have hsum : b₁.length + b₂.length = l := by
      simpa using (congrArg List.length hbytes).symm
    rw [hbuf, hb₁, slice_append] at hm
    obtain ⟨y, hylen, hyq, hslice, hcopy⟩ := copy_of_seek hf hno hm
    rw [hslice] at hfirst
    cases e with
    | none =>
      -- the header is there, the frame is not complete yet
      obtain rfl := Reassembly.eq_of_scanSynced_none hfirst
      rw [hb₂, show q + k + b₁.length = y + m.length by omega] at hrest
      exact consumes_of_copy hf hrest rfl rfl hcopy hlt (by omega)
    | some e =>
      have h24 := lengthAt_of_copy hf hcopy
      rcases scanSynced_slice hfirst with ⟨hbogus, -⟩ | ⟨-, -, rfl, -⟩
      · exact absurd (by rw [h24]; decide) hbogus
      · rw [h24, hcopy]
        simp [framesOf]

/-- From a synchronised state, the frame is consumed, or the walk takes a step. -/
theorem consumes_or_steps (hno : NoTrap f) {s s' : State UInt8} {es : List (Event UInt8)}
    {q k l : ℕ} (h : Run protocol s (slice (repeated f) (q + k) l) es s')
    (hs : s.synced = true) (hbuf : s.buf = slice (repeated f) q k)
    (hlt : s'.buf.length < 30) (hlen : 90 ≤ k + l) :
    f ∈ framesOf es ∨
      Plausible (lengthAt f q) ∧ ∃ w es' k' l',
        es = .frame w :: es' ∧ k + l ≤ k' + l' + 30 ∧
        Run protocol ⟨true, slice (repeated f) (skip f q) k'⟩
          (slice (repeated f) (skip f q + k') l') es' s' := by
  rcases h.first_of_synced hs with ⟨-, rfl⟩ | ⟨b₁, b₂, e, es', s₁, hbytes, rfl, hcap, hfirst,
    hrest⟩
  · rw [State.push_buf, hbuf, slice_append, length_slice] at hlt
    omega
  · obtain ⟨hb₁, hb₂⟩ := Reassembly.eq_slice_of_append hbytes.symm
    have hsum : b₁.length + b₂.length = l := by
      simpa using (congrArg List.length hbytes).symm
    have hcap30 : k + b₁.length ≤ 30 := by simpa [hbuf] using hcap
    rw [hbuf, hb₁, slice_append] at hfirst
    rcases scanSynced_slice hfirst with ⟨-, rfl, rfl⟩ | ⟨hok, hfull, rfl, rfl⟩
    · -- released by a bogus length: the search goes on from an empty buffer
      left
      rw [hb₂, ← Nat.add_zero (q + k + b₁.length)] at hrest
      simpa [framesOf] using consumes_of_searching hf hno hrest rfl rfl (by omega) hlt (by omega)
    · have hskip : skip f q = q + (lengthAt f q + 2) := rfl
      have h28 := hok.2
      rw [hb₂, show q + k + b₁.length =
        skip f q + (k + b₁.length - (lengthAt f q + 2)) by omega] at hrest
      exact .inr ⟨hok, _, es', _, _, rfl, by omega, hrest⟩

/-- A walk that is released after `j` steps gets the frame consumed. -/
theorem consumes_of_released (hno : NoTrap f) (j : ℕ) {s s' : State UInt8}
    {es : List (Event UInt8)} {q k l : ℕ}
    (h : Run protocol s (slice (repeated f) (q + k) l) es s') (hs : s.synced = true)
    (hbuf : s.buf = slice (repeated f) q k) (hrel : Released f ((skip f)^[j] q))
    (hlt : s'.buf.length < 30) (hlen : 30 * j + 90 ≤ k + l) : f ∈ framesOf es := by
  induction j generalizing s es q k l with
  | zero =>
    -- released at once
    rcases hrel with hbogus | hcopy
    · rcases consumes_or_steps hf hno h hs hbuf hlt (by omega) with hmem | ⟨hok, -⟩
      · exact hmem
      · exact absurd hok hbogus
    · exact consumes_of_copy hf h hs hbuf hcopy hlt (by omega)
  | succ j ih =>
    rcases consumes_or_steps hf hno h hs hbuf hlt (by omega) with
      hmem | ⟨-, w, es', k', l', rfl, hle, hrest⟩
    · exact hmem
    · rw [Function.iterate_succ_apply] at hrel
      have := ih hrest rfl rfl hrel (by omega)
      simp [framesOf, this]

omit hf in
/-- One number of steps is enough for the walks from all the places below a bound. -/
theorem exists_released_le (hno : NoTrap f) (N : ℕ) :
    ∃ J, ∀ q < N, ∃ k ≤ J, Released f ((skip f)^[k] q) := by
  induction N with
  | zero => exact ⟨0, fun q hq => absurd hq (Nat.not_lt_zero q)⟩
  | succ N ih =>
    obtain ⟨J, hJ⟩ := ih
    obtain ⟨k, hk⟩ := hno N
    refine ⟨max J k, fun q hq => ?_⟩
    rcases Nat.lt_succ_iff_lt_or_eq.mp hq with hq | rfl
    · obtain ⟨i, hi, hrel⟩ := hJ q hq
      exact ⟨i, hi.trans (le_max_left J k), hrel⟩
    · exact ⟨k, le_max_right J k, hk⟩

/-- If no walk is trapped, some number of copies gets the frame consumed, from any state and
however the copies are cut. -/
theorem consumes_of_noTrap (hno : NoTrap f) :
    ∃ n, ∀ s s' es, s.buf.length < 30 →
      Run protocol s (List.replicate n f).flatten es s' → f ∈ framesOf es := by
  -- the first 30 bytes leave the parser somewhere below 61
  obtain ⟨J, hJ⟩ := exists_released_le hno 61
  refine ⟨30 * J + 150, fun s s' es hs h => ?_⟩
  have hlt := h.length_lt hs
  rw [flatten_replicate hf] at h
  obtain ⟨b₁, b₂, es₁, es₂, s₁, hbytes, rfl, h₁, h₂, hlo, hhi⟩ := h.split (n := 30) (by simp; omega)
  rw [protocol_capacity] at hhi
  obtain ⟨hb₁, hb₂⟩ := Reassembly.eq_slice_of_append hbytes.symm
  have hsum : b₁.length + b₂.length = 26 * (30 * J + 150) := by
    simpa using (congrArg List.length hbytes).symm
  have hlt₁ : s₁.buf.length < 30 := h₁.length_lt hs
  -- the buffer has room for fewer bytes than have arrived: what it holds is a slice
  have hsuffix : s₁.buf <:+ slice (repeated f) 0 b₁.length := by
    rw [← hb₁]
    exact List.suffix_of_suffix_length_le h₁.suffix (List.suffix_append _ _) (by omega)
  obtain ⟨-, hbuf⟩ := Reassembly.eq_slice_of_suffix hsuffix
  rw [Nat.zero_add] at hbuf
  set q := b₁.length - s₁.buf.length with hq
  rw [hb₂, show 0 + b₁.length = q + s₁.buf.length by omega] at h₂
  rw [Reassembly.framesOf_append, List.mem_append]
  right
  cases hsync : s₁.synced with
  | false => exact consumes_of_searching hf hno h₂ hsync hbuf hlt₁ hlt (by omega)
  | true =>
    obtain ⟨k, hk, hrel⟩ := hJ q (by omega)
    exact consumes_of_released hf hno k h₂ hsync hbuf hrel hlt (by omega)

end Recovery

/-! ### Lock-out -/

section Trapped

variable {f : List UInt8} (hf : ValidFrame f)

include hf

/-- A trapped walk never consumes the frame. -/
theorem not_mem_of_trapped {s s' : State UInt8} {bytes : List UInt8} {es : List (Event UInt8)}
    {q k l : ℕ} (h : Run protocol s bytes es s') (hs : s.synced = true)
    (hbuf : s.buf = slice (repeated f) q k) (hbytes : bytes = slice (repeated f) (q + k) l)
    (htrap : Trapped f q) : f ∉ framesOf es := by
  induction h generalizing q k l with
  | nil => simp [framesOf]
  | @fill s s₁ s₂ c bytes e es hc hscan hrun ih =>
    obtain ⟨hc', hb⟩ := Reassembly.eq_slice_of_append hbytes
    rw [Reassembly.scan, State.push_synced, hs, if_pos rfl, State.push_buf, hbuf, hc',
      slice_append] at hscan
    rw [Reassembly.framesOf_append, List.mem_append, not_or]
    cases e with
    | none =>
      -- the frame that starts at `q` is not complete yet
      obtain rfl := Reassembly.eq_of_scanSynced_none hscan
      exact ⟨by simp [framesOf], ih rfl rfl (by rw [hb, Nat.add_assoc]) htrap⟩
    | some e =>
      have hstay := htrap 0
      rw [Function.iterate_zero, id_eq, Released, not_or, not_not] at hstay
      rcases scanSynced_slice hscan with ⟨hbogus, -⟩ | ⟨-, hle, rfl, rfl⟩
      · exact absurd hstay.1 hbogus
      · -- a step of the walk; what it consumed is no copy of the frame
        have hne : slice (repeated f) q (lengthAt f q + 2) ≠ f := by
          intro heq
          have hlen := congrArg List.length heq
          rw [length_slice, hf.1] at hlen
          exact hstay.2 (by rw [← hlen, heq])
        have hskip : skip f q = q + (lengthAt f q + 2) := rfl
        refine ⟨by simpa [framesOf] using hne.symm, ih rfl rfl (l := bytes.length) ?_ fun j => ?_⟩
        · rwa [show skip f q + (k + c.length - (lengthAt f q + 2)) = q + k + c.length by omega]
        · have := htrap (j + 1)
          rwa [Function.iterate_succ_apply] at this

/-- A parser in the middle of a frame of 30 bytes that lacks its last `p` takes them from the first
copy of the frame, and never consumes one if the walk from there is trapped. -/
theorem not_mem_of_pending {p : ℕ} (hp : 1 ≤ p) (hp' : p ≤ 25) {s s' : State UInt8}
    (hs : s = ⟨true, 0 :: 28 :: List.replicate (28 - p) 0⟩) {l : ℕ} {es : List (Event UInt8)}
    (h : Run protocol s (slice (repeated f) 0 l) es s') (htrap : Trapped f p) :
    f ∉ framesOf es := by
  set rest : List UInt8 := 0 :: 28 :: List.replicate (28 - p) 0 with hrest
  have hlen : rest.length = 30 - p := by simp [hrest]; omega
  subst hs
  rcases h.first_of_synced rfl with ⟨rfl, -⟩ | ⟨b₁, b₂, e, es', s₁, hbytes, rfl, -, hfirst, hrun⟩
  · simp [framesOf]
  · obtain ⟨hb₁, hb₂⟩ := Reassembly.eq_slice_of_append hbytes.symm
    rw [Nat.zero_add] at hb₂
    have hverdict := frameVerdict_eq (l := rest ++ b₁) (by rw [List.length_append]; omega)
    rw [show byteAt (rest ++ b₁) 1 = 28 from rfl, if_neg (by decide)] at hverdict
    split_ifs at hverdict with hshort
    · rw [Reassembly.scanSynced_of_wait hverdict] at hfirst
      cases hfirst
    · rw [List.length_append, hlen, show (28 : UInt8).toNat + 2 = 30 from rfl] at hshort
      rw [Reassembly.scanSynced_of_frame hverdict] at hfirst
      cases hfirst
      rw [framesOf, List.mem_cons, not_or]
      constructor
      · -- the pending frame has 30 bytes
        intro heq
        have h26 := hf.1
        rw [heq, List.length_take, List.length_append, hlen] at h26
        change min 30 _ = 26 at h26
        omega
      · refine not_mem_of_trapped hf hrun rfl (k := b₁.length - p) (l := b₂.length) ?_ ?_ htrap
        · change (rest ++ b₁).drop 30 = _
          rw [List.drop_append, hlen, List.drop_eq_nil_of_le (by omega), List.nil_append,
            show 30 - (30 - p) = p by omega]
          conv_lhs => rw [hb₁]
          rw [Reassembly.drop_slice _ _ _ (by omega), Nat.zero_add]
        · rwa [show p + (b₁.length - p) = b₁.length by omega]

end Trapped

/-- A header that is found, the rest of its frame, and the start of a frame of 30 bytes that lacks
its last `p`. -/
def falseStart (p : ℕ) : List UInt8 :=
  (0 :: 24 :: 0x16 :: List.replicate 23 0) ++ (0 :: 28 :: List.replicate (28 - p) 0)

/-- However it is cut, the false start leaves the parser synchronised, `p` bytes before the end of
a frame. -/
theorem run_falseStart {p : ℕ} (hp : 1 ≤ p) (hp' : p ≤ 25) {es : List (Event UInt8)}
    {s : State UInt8} (h : Run protocol State.init (falseStart p) es s) :
    s = ⟨true, 0 :: 28 :: List.replicate (28 - p) 0⟩ := by
  set first : List UInt8 := 0 :: 24 :: 0x16 :: List.replicate 23 0 with hfirst
  set rest : List UInt8 := 0 :: 28 :: List.replicate (28 - p) 0 with hrest
  have hlen : rest.length = 30 - p := by simp [hrest]; omega
  have hseek : seek protocol (falseStart p) = some (falseStart p) := rfl
  have hwait : protocol.verdict rest = .wait := by
    change frameVerdict rest = .wait
    rw [frameVerdict_eq (by omega), show byteAt rest 1 = 28 from rfl, if_neg (by decide),
      if_pos (by rw [hlen]; change 30 - p < 30; omega)]
  have hwalk : Reassembly.walk protocol (falseStart p) = [.frame first] := by
    have hframe : Reassembly.IsFrame protocol first := rfl
    have := Reassembly.walk_frames
      (show ∀ w ∈ [first], Reassembly.IsFrame protocol w by simpa using hframe) rest
    rwa [Reassembly.walk_of_wait hwait, List.flatten_singleton] at this
  have hlt := h.length_lt (by decide)
  rw [protocol_capacity] at hlt
  cases Reassembly.follows_of_run h with
  | searching _ _ hnone => rw [hseek] at hnone; cases hnone
  | framing l hsync _ hl hbytes hw =>
    rw [hseek] at hl
    obtain rfl := Option.some.inj hl
    have hes := hw []
    rw [List.append_nil, hwalk] at hes
    rcases es with - | ⟨e, es⟩
    · -- more bytes have arrived than the buffer holds
      rw [Reassembly.bytesOf_nil, List.nil_append] at hbytes
      have := congrArg List.length hbytes
      simp [falseStart] at this
      omega
    · simp only [List.cons_append, List.cons.injEq, List.nil_eq, List.append_eq_nil_iff] at hes
      obtain ⟨rfl, rfl, -⟩ := hes
      have : s.buf = rest := List.append_cancel_left hbytes
      rw [← this, ← hsync]
  | lost l es₁ es₂ _ _ hl hw =>
    -- the walk meets no bogus length
    rw [hseek] at hl
    obtain rfl := Option.some.inj hl
    have := hw []
    rw [List.append_nil, hwalk] at this
    have hmem : Event.desync ∈ [Event.frame first] := by rw [this]; simp
    simp at hmem

/-! ### The parser -/

/-- From every state the parser reaches with reads of 1 to 25 bytes, enough copies of the frame,
in any reads of 1 to 25 bytes, make it decode one. -/
def Recovers (maxChannels : UInt16) (out : RcOutput) (f : List UInt8) : Prop :=
  ∀ noise : List (List UInt8), (∀ read ∈ noise, 1 ≤ read.length ∧ read.length ≤ 25) →
    ∃ r₀, parseReads maxChannels noise (.init out) = .ok r₀ ∧
      ∃ n, ∀ reads : List (List UInt8), (∀ read ∈ reads, 1 ≤ read.length ∧ read.length ≤ 25) →
        reads.flatten = (List.replicate n f).flatten →
        ∃ r, parseReads maxChannels reads { r₀ with decodes := [] } = .ok r ∧
          ∃ d ∈ r.decodes, d.frame = f

/-- A frame is decoded exactly when it is consumed. -/
theorem exists_decode_iff (maxChannels : UInt16) (out : RcOutput) {es : List (Event UInt8)}
    {f : List UInt8} (hf : ValidFrame f) :
    (∃ d ∈ (reports maxChannels es out).2, d.frame = f) ↔ f ∈ framesOf es := by
  have hmap : (∃ d ∈ (reports maxChannels es out).2, d.frame = f) ↔
      f ∈ (reports maxChannels es out).2.map Decode.frame := by
    simp
  rw [hmap, reports_frames, List.mem_filter]
  simp [hf.2]

/-- The run of the parser's view, and when a frame is among its decodes. -/
theorem parseReads_run {r₀ : ParseResult} (maxChannels : UInt16)
    (hlt : r₀.parser.currentFramePosition < 30) {f : List UInt8} (hf : ValidFrame f)
    (reads : List (List UInt8)) :
    ∃ es r, parseReads maxChannels reads { r₀ with decodes := [] } = .ok r ∧
      Run protocol r₀.parser.view reads.flatten es r.parser.view ∧
      ((∃ d ∈ r.decodes, d.frame = f) ↔ f ∈ framesOf es) := by
  obtain ⟨es, r, hr, -, hrun, -, hdecodes⟩ :=
    parseReads_eq maxChannels reads { r₀ with decodes := [] } hlt
  refine ⟨es, r, hr, hrun, ?_⟩
  rw [hdecodes, List.nil_append]
  exact exists_decode_iff maxChannels r₀.out hf

/-- The bytes one by one, as reads of one byte. -/
def bytewise (l : List UInt8) : List (List UInt8) := l.map fun b => [b]

theorem flatten_bytewise (l : List UInt8) : (bytewise l).flatten = l := by
  induction l with
  | nil => rfl
  | cons b l ih =>
    rw [bytewise, List.map_cons, List.flatten_cons, ← bytewise, ih, List.singleton_append]

theorem length_of_mem_bytewise {l read : List UInt8} (h : read ∈ bytewise l) :
    1 ≤ read.length ∧ read.length ≤ 25 := by
  obtain ⟨b, -, rfl⟩ := List.mem_map.mp h
  simp

/-- A trapped walk that starts within the first copy locks the frame out. -/
theorem not_recovers_of_trapped (maxChannels : UInt16) (out : RcOutput) {f : List UInt8}
    (hf : ValidFrame f) {p : ℕ} (hp : p < 26) (htrap : Trapped f p) :
    ¬ Recovers maxChannels out f := by
  have hpos : 1 ≤ p := by
    by_contra hzero
    obtain rfl : p = 0 := by omega
    exact htrap 0 (.inr (slice_repeated_zero hf))
  intro hrec
  -- the noise is the false start
  obtain ⟨r₀, hr₀, n, hn⟩ :=
    hrec (bytewise (falseStart p)) (fun read => length_of_mem_bytewise)
  obtain ⟨es₀, r₀', hr₀', hlt₀, hrun₀, -⟩ :=
    parseReads_eq maxChannels (bytewise (falseStart p)) (.init out) (Nat.zero_lt_succ _)
  obtain rfl : r₀' = r₀ := Except.ok.inj (hr₀'.symm.trans hr₀)
  rw [flatten_bytewise] at hrun₀
  have hstate := run_falseStart hpos (by omega) hrun₀
  -- and no number of copies helps from there
  obtain ⟨r, hr, hdecoded⟩ := hn (bytewise (List.replicate n f).flatten)
    (fun read => length_of_mem_bytewise) (flatten_bytewise _)
  obtain ⟨es, r', hr', hrun, hdecoded'⟩ := parseReads_run maxChannels hlt₀ hf
    (bytewise (List.replicate n f).flatten)
  obtain rfl : r' = r := Except.ok.inj (hr'.symm.trans hr)
  rw [flatten_bytewise, flatten_replicate hf] at hrun
  exact not_mem_of_pending hf hpos (by omega) hstate hrun htrap (hdecoded'.mp hdecoded)

/-- Recovery, exactly: from every reachable state a steady stream of the frame gets a copy of it
decoded if and only if no walk over the repeated frame is trapped. -/
theorem recovers_iff_noTrap (maxChannels : UInt16) (out : RcOutput) (f : List UInt8)
    (hf : ValidFrame f) : Recovers maxChannels out f ↔ NoTrap f := by
  constructor
  · intro hrec
    rw [noTrap_iff]
    by_contra htrap
    push Not at htrap
    obtain ⟨p, hp, htrap⟩ := htrap
    exact not_recovers_of_trapped maxChannels out hf hp htrap hrec
  · intro hno noise _
    obtain ⟨es₀, r₀, hr₀, hlt₀, -⟩ :=
      parseReads_eq maxChannels noise (.init out) (Nat.zero_lt_succ _)
    obtain ⟨n, hn⟩ := consumes_of_noTrap hf hno
    refine ⟨r₀, hr₀, n, fun reads _ hreads => ?_⟩
    obtain ⟨es, r, hr, hrun, hdecoded⟩ := parseReads_run maxChannels hlt₀ hf reads
    rw [hreads] at hrun
    have hbuf : r₀.parser.view.buf.length < 30 := by
      rw [show r₀.parser.view.buf.length = _ from length_front hlt₀.le]
      exact hlt₀
    exact ⟨r, hr, hdecoded.mpr (hn _ _ _ hbuf hrun)⟩

/-- With every channel at 0 no walk is trapped: all length bytes but three are bogus, and those
three lead to a copy of the frame. -/
theorem recovers_constFrame : Recovers 18 .init (constFrame 0) := by
  refine (recovers_iff_noTrap 18 .init (constFrame 0) (by decide +kernel)).mpr ?_
  rw [noTrap_iff]
  have hstep : ∀ q < 26, Released (constFrame 0) q ∨ Released (constFrame 0)
      (skip (constFrame 0) q) := by decide +kernel
  intro q hq
  rcases hstep q hq with h | h
  · exact ⟨0, h⟩
  · exact ⟨1, h⟩

/-- An RC frame whose last payload byte is 24, the length byte of an RC frame. -/
def stuckFrame : List UInt8 :=
  0xC8 :: 24 :: 0x16 :: List.replicate 21 0 ++
    [24, crc8DvbS2Buf (0x16 :: List.replicate 21 0 ++ [24])]

/-- A parser that comes to read that byte as a length byte reads it again 26 bytes later, for
ever. -/
theorem not_recovers :
    ¬ ∀ (maxChannels : UInt16) (out : RcOutput) (f : List UInt8), ValidFrame f →
      Recovers maxChannels out f := by
  intro h
  have hvalid : ValidFrame stuckFrame := by decide +kernel
  exact not_recovers_of_trapped 18 .init hvalid (p := 23) (by decide)
    (trapped_of_lengthAt (by decide +kernel) (by decide +kernel)) (h 18 .init _ hvalid)

end Crsf
