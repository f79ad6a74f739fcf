import OmniRobot.Reassembly.Basic

/-!
# The framing of an uncut stream

`walk` cuts a whole list of bytes into frames, as a splitter with unlimited memory would, and
stops at the first bogus verdict; `ideal` first drops the bytes before the first header. Neither
knows of a buffer or of the pieces the stream arrives in.

`Follows` says what a receiver's state and reports have to do with the ideal framing of what it
has received: it still searches and there was no header, or it is synchronised and its reports
are the first of the ideal ones, or it has lost synchronisation, at the place where the ideal
framing stops. Every run from the initial state keeps `Follows` (`follows_of_run`), so a run that
never loses synchronisation reports the ideal framing, whatever the cut.

## Main results

* `Follows.scan`: one look keeps `Follows`;
* `follows_of_run`: so does every run from the initial state;
* `Follows.prefix_ideal`: up to the first bogus verdict the reports are the ideal ones;
* `Run.length_frames_of_searching`: what a run from a failed search can consume;
* `Run.of_prefix`, `Run.of_frame`, `Run.of_frames`: what a synchronised receiver does with a part of
  one frame, with all of it, and with a sequence of them;
* `walk_frames`: a list that is a sequence of frames is walked frame by frame.
-/

namespace Reassembly

variable {α : Type*} (P : Protocol α)

/-- The events of a whole stream that starts at a frame boundary. -/
def walk (l : List α) : List (Event α) :=
  match _h : P.verdict l with
  | .wait => []
  | .bogus => [.desync]
  | .frame n => .frame (l.take n) :: walk (l.drop n)
termination_by l.length
decreasing_by
  have hn := P.frame_bounds _h
  simp only [List.length_drop]
  omega

/-- The events of a whole stream: those from its first header on. -/
def ideal (l : List α) : List (Event α) :=
  match seek P l with
  | some m => walk P m
  | none => []

variable {P}

theorem walk_of_wait {l : List α} (h : P.verdict l = .wait) : walk P l = [] := by
  rw [walk]
  split <;> simp_all

theorem walk_of_bogus {l : List α} (h : P.verdict l = .bogus) : walk P l = [.desync] := by
  rw [walk]
  split <;> simp_all

theorem walk_of_frame {l : List α} {n : ℕ} (h : P.verdict l = .frame n) :
    walk P l = .frame (l.take n) :: walk P (l.drop n) := by
  rw [walk]
  split <;> simp_all

/-- Bytes after a complete frame do not change it. -/
theorem walk_append_of_frame {l : List α} {n : ℕ} (h : P.verdict l = .frame n) (m : List α) :
    walk P (l ++ m) = .frame (l.take n) :: walk P (l.drop n ++ m) := by
  have hn := P.frame_bounds h
  have hv : P.verdict (l ++ m) = .frame n := by rw [P.verdict_append m (by simp [h]), h]
  rw [walk_of_frame hv, List.take_append_of_le_length hn.2, List.drop_append_of_le_length hn.2]

theorem walk_append_of_bogus {l : List α} (h : P.verdict l = .bogus) (m : List α) :
    walk P (l ++ m) = [.desync] :=
  walk_of_bogus (by rw [P.verdict_append m (by simp [h]), h])

/-- A sequence of frames is walked frame by frame. -/
theorem walk_frames {ws : List (List α)} (h : ∀ w ∈ ws, IsFrame P w) (m : List α) :
    walk P (ws.flatten ++ m) = ws.map .frame ++ walk P m := by
  induction ws with
  | nil => simp
  | cons w ws ih =>
    have hw : P.verdict w = .frame w.length := h w (by simp)
    rw [List.flatten_cons, List.append_assoc, walk_append_of_frame hw]
    simp [ih fun v hv => h v (by simp [hv])]

/-! ### A single frame -/

/-- A frame that has not all arrived is waited for. -/
theorem verdict_of_prefix {w l : List α} (hw : IsFrame P w) (hl : l <+: w) (hne : l ≠ w) :
    P.verdict l = .wait := by
  by_contra h
  obtain ⟨m, rfl⟩ := hl
  -- a decided verdict is that of the frame, which is longer
  have hv := P.verdict_append m h
  rw [show P.verdict (l ++ m) = .frame (l ++ m).length from hw] at hv
  have hle := (P.frame_bounds hv.symm).2
  rw [List.length_append] at hle
  have hm : m = [] := List.eq_nil_of_length_eq_zero (by omega)
  exact hne (by rw [hm, List.append_nil])

theorem ne_nil_of_isFrame {w : List α} (hw : IsFrame P w) : w ≠ [] := by
  rintro rfl
  exact absurd (P.frame_bounds hw).1 (lt_irrefl 0)

/-- A synchronised receiver keeps what it gets of a frame, as long as a byte is missing. -/
theorem Run.of_prefix {w : List α} (hw : IsFrame P w) {s s' : State α} {bytes : List α}
    {es : List (Event α)} (h : Run P s bytes es s') (hs : s.synced = true)
    (hpre : s.buf ++ bytes <+: w) (hne : s.buf ++ bytes ≠ w) :
    es = [] ∧ s' = ⟨true, s.buf ++ bytes⟩ := by
  induction h with
  | nil s =>
    rw [List.append_nil]
    exact ⟨rfl, by rw [← hs]⟩
  | @fill s s₁ s₂ c bytes e es _ hscan _ ih =>
    rw [← List.append_assoc] at hpre hne ⊢
    -- with this fill, too, a byte is missing
    have hfill : s.buf ++ c <+: w := (List.prefix_append _ _).trans hpre
    have hfill_ne : s.buf ++ c ≠ w := by
      intro heq
      rw [heq] at hpre hne
      have hle := hpre.length_le
      rw [List.length_append] at hle
      have hnil : bytes = [] := List.eq_nil_of_length_eq_zero (by omega)
      exact hne (by rw [hnil, List.append_nil])
    have hwait := verdict_of_prefix hw hfill hfill_ne
    rw [scan, State.push_synced, hs, if_pos rfl, State.push_buf, scanSynced_of_wait hwait] at hscan
    cases hscan
    exact ih rfl hpre hne

/-- It consumes the frame with its last byte. -/
theorem Run.of_frame {w : List α} (hw : IsFrame P w) {s s' : State α} {bytes : List α}
    {es : List (Event α)} (h : Run P s bytes es s') (hs : s.synced = true)
    (hbytes : s.buf ++ bytes = w) (hne : s.buf ≠ w) : es = [.frame w] ∧ s' = ⟨true, []⟩ := by
  induction h with
  | nil s => exact absurd (by rwa [List.append_nil] at hbytes) hne
  | @fill s s₁ s₂ c bytes e es _ hscan hrest ih =>
    rw [← List.append_assoc] at hbytes
    rw [scan, State.push_synced, hs, if_pos rfl, State.push_buf] at hscan
    by_cases hfill : s.buf ++ c = w
    · -- the last byte is in this fill, and nothing follows
      rw [hfill, scanSynced_of_frame hw, List.drop_length, List.take_length] at hscan
      cases hscan
      obtain rfl : bytes = [] := by simpa [hfill] using hbytes
      obtain ⟨rfl, rfl⟩ := hrest.of_prefix hw rfl (List.nil_prefix) (ne_nil_of_isFrame hw).symm
      exact ⟨rfl, rfl⟩
    · have hwait := verdict_of_prefix hw ⟨bytes, hbytes⟩ hfill
      rw [scanSynced_of_wait hwait] at hscan
      cases hscan
      exact ih rfl hbytes hfill

/-- Of a sequence of frames it consumes the first few, and keeps what it has of the others. -/
theorem Run.of_frames (hnil : P.verdict [] = .wait) {ws : List (List α)}
    (hws : ∀ w ∈ ws, IsFrame P w) {s s' : State α} {bytes : List α} {es : List (Event α)}
    (h : Run P s bytes es s') (hs : s.synced = true) (hpre : s.buf ++ bytes <+: ws.flatten) :
    ∃ k ≤ ws.length, es = (ws.take k).map .frame ∧ s'.synced = true ∧
      (ws.take k).flatten ++ s'.buf = s.buf ++ bytes := by
  induction h generalizing ws with
  | nil s => exact ⟨0, Nat.zero_le _, rfl, hs, (List.append_nil _).symm⟩
  | @fill s s₁ s₂ c bytes e es _ hscan _ ih =>
    rw [← List.append_assoc] at hpre ⊢
    rw [scan, State.push_synced, hs, if_pos rfl, State.push_buf] at hscan
    by_cases hwait : P.verdict (s.buf ++ c) = .wait
    · rw [scanSynced_of_wait hwait] at hscan
      cases hscan
      exact ih hws rfl hpre
    -- a decided verdict is that of the stream, whose first frame is then all there
    obtain ⟨m, hm⟩ := (List.prefix_append (s.buf ++ c) bytes).trans hpre
    have hverdict := P.verdict_append m hwait
    rw [hm] at hverdict
    cases ws with
    | nil =>
      obtain ⟨hempty, -⟩ := List.append_eq_nil_iff.mp hm
      exact absurd hnil (by rwa [hempty] at hwait)
    | cons w ws =>
      have hw : P.verdict w = .frame w.length := hws w List.mem_cons_self
      rw [List.flatten_cons, P.verdict_append _ (by rw [hw]; simp), hw] at hverdict
      have hle := (P.frame_bounds hverdict.symm).2
      obtain ⟨t, ht⟩ : w <+: s.buf ++ c :=
        List.prefix_of_prefix_length_le (List.prefix_append w ws.flatten) ⟨m, hm⟩ hle
      rw [scanSynced_of_frame hverdict.symm, ← ht, List.take_left, List.drop_left] at hscan
      cases hscan
      rw [← ht, List.flatten_cons, List.append_assoc, List.prefix_append_right_inj] at hpre
      obtain ⟨k, hk, rfl, hsync, hbuf⟩ :=
        ih (fun v hv => hws v (List.mem_cons_of_mem w hv)) rfl hpre
      exact ⟨k + 1, Nat.succ_le_succ hk, rfl, hsync, by
        rw [List.take_succ_cons, List.flatten_cons, List.append_assoc, hbuf, ← ht,
          List.append_assoc]⟩

/-- A whole frame passes a synchronised, empty buffer. -/
theorem feed_frame {w : List α} (hw : IsFrame P w) :
    feed P ⟨true, []⟩ w = (⟨true, []⟩, [.frame w]) := by
  have hrun := feed_run (P := P) ⟨true, []⟩ w (Nat.zero_lt_of_lt P.keep_lt)
  obtain ⟨hes, hs⟩ := hrun.of_frame hw rfl rfl (ne_nil_of_isFrame hw).symm
  exact Prod.ext hs hes

/-! ### Searching a stream that grows -/

/-- The first header is found from the list itself: no shorter end starts with one. -/
theorem seek_eq_none_iff {l : List α} :
    seek P l = none ↔ ∀ m, m <:+ l → P.header m = false := by
  induction l with
  | nil =>
    refine ⟨fun _ m hm => ?_, fun _ => rfl⟩
    rw [List.suffix_nil] at hm
    -- the empty list is too short for a header
    by_contra hh
    have := P.length_of_header (by simpa using hh : P.header m = true)
    have := P.headerLen_pos
    simp_all
  | cons a l ih =>
    rw [seek]
    constructor
    · intro h m hm
      split at h
      · cases h
      · rcases List.suffix_cons_iff.mp hm with rfl | hm
        · simp_all
        · exact ih.mp h m hm
    · intro h
      rw [if_neg (by simp [h _ (List.suffix_refl _)])]
      exact ih.mpr fun m hm => h m (hm.trans (List.suffix_cons a l))

/-- A header at the front is found there. -/
theorem seek_of_header {l : List α} (h : P.header l = true) : seek P l = some l := by
  cases l with
  | nil => exact absurd (P.length_of_header h) (not_le.mpr P.headerLen_pos)
  | cons a l => rw [seek, if_pos h]

/-- A front whose ends, once extended, carry no header is skipped. -/
theorem seek_append_of_front {x l : List α}
    (h : ∀ y, y <:+ x → y ≠ [] → P.header (y ++ l) = false) : seek P (x ++ l) = seek P l := by
  induction x with
  | nil => rfl
  | cons a x ih =>
    have ha : P.header (a :: (x ++ l)) = false := h (a :: x) (List.suffix_refl _) (by simp)
    rw [List.cons_append, seek, if_neg (by simp [ha])]
    exact ih fun y hy => h y (hy.trans (List.suffix_cons a x))

/-- What a search finds starts with a header. -/
theorem header_of_seek {l m : List α} (h : seek P l = some m) : P.header m = true := by
  induction l with
  | nil => simp [seek] at h
  | cons a l ih =>
    rw [seek] at h
    split at h
    next hh => cases h; exact hh
    next => exact ih h

theorem headerLen_le_of_seek {l m : List α} (h : seek P l = some m) :
    P.headerLen ≤ m.length :=
  P.length_of_header (header_of_seek h)

/-- A header, once found, stays where it is. -/
theorem seek_append_of_some {l m : List α} (h : seek P l = some m) (c : List α) :
    seek P (l ++ c) = some (m ++ c) := by
  induction l with
  | nil => simp [seek] at h
  | cons a l ih =>
    rw [seek] at h
    split at h
    next hh =>
      cases h
      rw [List.cons_append, seek, ← List.cons_append, P.header_append c (P.length_of_header hh),
        if_pos hh]
    next hh =>
      have hnext := ih h
      rw [List.cons_append, seek, ← List.cons_append, if_neg]
      · exact hnext
      · intro hc
        by_cases hlen : P.headerLen ≤ (a :: l).length
        · exact hh (by rwa [P.header_append c hlen] at hc)
        · -- a header found further on already needs as many bytes as one found here
          have := headerLen_le_of_seek h
          have := (seek_suffix h).length_le
          simp only [List.length_cons] at hlen
          omega

/-- Searching an end `b` of a stream `r` that has no header, and that kept enough of `r`, finds
in the next bytes what searching all of `r` finds. -/
theorem seek_append_of_suffix {r b : List α} (hr : seek P r = none) (hb : b <:+ r)
    (hkeep : b = r ∨ P.keep ≤ b.length) (c : List α) : seek P (r ++ c) = seek P (b ++ c) := by
  obtain ⟨x, rfl⟩ := hb
  rw [List.append_assoc]
  apply seek_append_of_front
  intro y hy hne
  rcases hkeep with hx | hkeep
  · have hx : x = [] := by simpa using hx
    subst hx
    exact absurd (List.suffix_nil.mp hy) hne
  -- with one byte before it, what was kept is long enough to decide the header test
  have hlen : P.headerLen ≤ (y ++ b).length := by
    have := P.headerLen_le
    have := List.length_pos_iff.mpr hne
    simp only [List.length_append]
    omega
  rw [← List.append_assoc, P.header_append c hlen]
  exact seek_eq_none_iff.mp hr _ ((List.suffix_append_self_iff).mpr hy)

theorem seek_eq_none_of_suffix {l m : List α} (h : seek P l = none) (hm : m <:+ l) :
    seek P m = none :=
  seek_eq_none_iff.mpr fun _ hx => seek_eq_none_iff.mp h _ (hx.trans hm)

/-- A header that only the bytes `c` completed starts at most `headerLen - 1` bytes before them. -/
theorem length_lt_of_seek_append {b c m : List α} (hb : seek P b = none)
    (h : seek P (b ++ c) = some m) : m.length < P.headerLen + c.length := by
  by_contra hlen
  have hhead := header_of_seek h
  -- otherwise the part of `m` before `c` would already decide the test, and `b` has no header
  obtain ⟨y, rfl⟩ : ∃ y, m = y ++ c := by
    have hc : c <:+ m :=
      List.suffix_of_suffix_length_le (List.suffix_append b c) (seek_suffix h) (by omega)
    obtain ⟨y, hy⟩ := hc
    exact ⟨y, hy.symm⟩
  rw [List.length_append] at hlen
  have hy : y <:+ b := (List.suffix_append_self_iff).mp (seek_suffix h)
  rw [P.header_append c (by omega), seek_eq_none_iff.mp hb y hy] at hhead
  cases hhead

/-- From a buffer without a header, the frames of a run lie in the bytes that arrive, but for the
front of one header. -/
theorem Run.length_frames_of_searching {s s' : State α} {bytes : List α} {es : List (Event α)}
    (h : Run P s bytes es s') (hs : s.synced = false) (hseek : seek P s.buf = none) :
    (bytesOf es).length < P.headerLen + bytes.length := by
  induction h with
  | nil => simp [P.headerLen_pos]
  | @fill s s₁ s₂ c bytes e es _ hscan hrun ih =>
    rw [Reassembly.scan, if_neg (by simp [hs])] at hscan
    split at hscan
    next m hm =>
      -- found: all that is consumed from here on comes from `m` and the bytes after it
      have hlt := length_lt_of_seek_append hseek hm
      have hrest := hrun.length_frames
      have hfront : (bytesOf e.toList).length + s₁.buf.length ≤ m.length := by
        rcases scanSynced_bytes hscan with hsplit | ⟨rfl, rfl⟩
        · rw [← hsplit, List.length_append]
        · simp
      simp only [bytesOf_append, List.length_append]
      omega
    next hm =>
      -- not found: still searching, in a buffer without a header
      have hnone : seek P s₁.buf = none ∧ s₁.synced = false ∧ e = none := by
        split at hscan <;> cases hscan
        · exact ⟨seek_eq_none_of_suffix hm (List.drop_suffix _ _), rfl, rfl⟩
        · exact ⟨hm, hs, rfl⟩
      have := ih hnone.2.1 hnone.1
      simp only [hnone.2.2, Option.toList_none, List.nil_append, List.length_append]
      omega

/-- A list too short for a header has none. -/
theorem seek_eq_none_of_length_lt {l : List α} (h : l.length < P.headerLen) : seek P l = none := by
  refine seek_eq_none_iff.mpr fun m hm => ?_
  by_contra hhead
  have := P.length_of_header (by simpa using hhead)
  have := hm.length_le
  omega

/-- A searching receiver does the same with a sequence of frames that starts with a header, once
it has seen the header. -/
theorem Run.of_frames_of_header (hnil : P.verdict [] = .wait) {w : List α} {ws : List (List α)}
    (hws : ∀ v ∈ w :: ws, IsFrame P v) (hhead : P.header w = true) {s s' : State α}
    {bytes : List α} {es : List (Event α)} (h : Run P s bytes es s') (hs : s.synced = false)
    (hpre : s.buf ++ bytes <+: (w :: ws).flatten) :
    ∃ k ≤ (w :: ws).length, es = ((w :: ws).take k).map .frame ∧
      ((w :: ws).take k).flatten ++ s'.buf = s.buf ++ bytes := by
  induction h with
  | nil s => exact ⟨0, Nat.zero_le _, rfl, (List.append_nil _).symm⟩
  | @fill s s₁ s₂ c bytes e es hc hscan hrun ih =>
    obtain ⟨m, hm⟩ := (List.prefix_append (s.buf ++ c) bytes).trans
      (by rwa [List.append_assoc] : s.buf ++ c ++ bytes <+: (w :: ws).flatten)
    by_cases hlen : P.headerLen ≤ (s.buf ++ c).length
    · -- the header is there, and the look is the one a synchronised receiver takes
      have hfound : P.header (s.buf ++ c) = true := by
        rw [← P.header_append m hlen, hm, List.flatten_cons,
          P.header_append _ (P.length_of_header hhead), hhead]
      rw [scan, if_neg (by simp [hs]), State.push_buf, seek_of_header hfound] at hscan
      have hscan' : scan P ((⟨true, s.buf⟩ : State α).push c) = (s₁, e) := by
        rw [scan, State.push_synced, if_pos rfl, State.push_buf]
        exact hscan
      obtain ⟨k, hk, hes, -, hbuf⟩ :=
        (Run.fill (s := ⟨true, s.buf⟩) hc hscan' hrun).of_frames hnil hws rfl hpre
      exact ⟨k, hk, hes, hbuf⟩
    · have hkeep := P.headerLen_le
      have hcap := P.keep_lt
      rw [scan, if_neg (by simp [hs]), State.push_buf, seek_eq_none_of_length_lt (not_le.mp hlen),
        if_neg (by omega)] at hscan
      cases hscan
      rw [← List.append_assoc] at hpre ⊢
      exact ih hs hpre

/-! ### What a receiver's reports have to do with the ideal framing -/

/-- The relation between the bytes `r` received since the initial state, the events `es` reported
since then and the state reached. -/
inductive Follows (P : Protocol α) (r : List α) (es : List (Event α)) (s : State α) : Prop
  /-- No header has arrived; the buffer keeps enough of the stream to recognise the next one. -/
  | searching : s.synced = false → es = [] → seek P r = none → s.buf <:+ r →
      (s.buf = r ∨ P.keep ≤ s.buf.length) → Follows P r es s
  /-- The reports are the first ideal events, and the buffer is what they have not consumed. -/
  | framing (l : List α) : s.synced = true → Event.desync ∉ es → seek P r = some l →
      bytesOf es ++ s.buf = l → (∀ m, walk P (l ++ m) = es ++ walk P (s.buf ++ m)) →
      Follows P r es s
  /-- Synchronisation was lost where the ideal framing stops. -/
  | lost (l : List α) (es₁ es₂ : List (Event α)) : es = es₁ ++ Event.desync :: es₂ →
      Event.desync ∉ es₁ → seek P r = some l →
      (∀ m, walk P (l ++ m) = es₁ ++ [Event.desync]) → Follows P r es s

namespace Follows

theorem init : Follows P [] [] State.init :=
  .searching rfl rfl rfl (List.suffix_refl _) (.inl rfl)

/-- A look at a synchronised buffer `b`, when the reports so far leave `b` of the stream. -/
private theorem scanSynced {r l b : List α} {es : List (Event α)} {s' : State α}
    {e : Option (Event α)} (hes : Event.desync ∉ es) (hseek : seek P r = some l)
    (hbytes : bytesOf es ++ b = l) (hwalk : ∀ m, walk P (l ++ m) = es ++ walk P (b ++ m))
    (h : scanSynced P b = (s', e)) : Follows P r (es ++ e.toList) s' := by
  unfold Reassembly.scanSynced at h
  split at h <;> cases h
  case h_1 =>
    exact .framing l rfl (by simpa using hes) hseek (by simpa using hbytes) (by simpa using hwalk)
  case h_2 hv =>
    refine .lost l es [] (by simp) hes hseek fun m => ?_
    rw [hwalk, walk_append_of_bogus hv]
  case h_3 n hv =>
    refine .framing l rfl (by simpa using hes) hseek (by simpa using hbytes) fun m => ?_
    rw [hwalk, walk_append_of_frame hv]
    simp

/-- One fill and look keep `Follows`. -/
theorem scan {r c : List α} {es : List (Event α)} {s s' : State α} {e : Option (Event α)}
    (hf : Follows P r es s) (h : scan P (s.push c) = (s', e)) :
    Follows P (r ++ c) (es ++ e.toList) s' := by
  cases hf with
  | searching hsync hes hseek hbuf hkeep =>
    subst hes
    -- the buffer shows the search all that the whole stream would
    have hsame := seek_append_of_suffix hseek hbuf hkeep c
    rw [Reassembly.scan, if_neg (by simp [hsync])] at h
    split at h
    next b hb =>
      rw [State.push_buf, ← hsame] at hb
      exact scanSynced (by simp) hb (by simp) (by simp) h
    next hb =>
      rw [State.push_buf, ← hsame] at hb
      have hbc : s.buf ++ c <:+ r ++ c := (List.suffix_append_self_iff).mpr hbuf
      have hkeep' : s.buf ++ c = r ++ c ∨ P.keep ≤ (s.buf ++ c).length := by
        rcases hkeep with hkeep | hkeep
        · exact .inl (by rw [hkeep])
        · exact .inr (by simp only [List.length_append]; omega)
      have := P.keep_lt
      -- whether or not the buffer was full, it keeps enough
      split at h <;> cases h
      · refine .searching rfl rfl hb ((List.drop_suffix _ _).trans hbc) (.inr ?_)
        simp only [State.push_buf, List.length_drop] at *
        omega
      · exact .searching hsync rfl hb hbc hkeep'
  | framing l hsync hes hseek hbytes hwalk =>
    rw [Reassembly.scan, if_pos (by simpa using hsync)] at h
    refine scanSynced hes (seek_append_of_some hseek c) ?_ (fun m => ?_) h
    · rw [State.push_buf, ← List.append_assoc, hbytes]
    · rw [State.push_buf, List.append_assoc, hwalk, List.append_assoc]
  | lost l es₁ es₂ hes hes₁ hseek hwalk =>
    refine .lost (l ++ c) es₁ (es₂ ++ e.toList) (by simp [hes]) hes₁
      (seek_append_of_some hseek c) fun m => ?_
    rw [List.append_assoc, hwalk]

/-- A run keeps `Follows`. -/
theorem run {r bytes : List α} {es es' : List (Event α)} {s s' : State α}
    (hf : Follows P r es s) (h : Run P s bytes es' s') :
    Follows P (r ++ bytes) (es ++ es') s' := by
  induction h generalizing r es with
  | nil => simpa using hf
  | fill _ hscan _ ih =>
    have := ih (hf.scan hscan)
    simpa using this

/-- The reports are a front of the ideal events, or the ideal events, which end at a bogus verdict,
are a front of the reports. -/
theorem prefix_ideal {r : List α} {es : List (Event α)} {s : State α} (hf : Follows P r es s) :
    es <+: ideal P r ∨ (Event.desync ∈ ideal P r ∧ ideal P r <+: es) := by
  cases hf with
  | searching _ hes => exact .inl (hes ▸ List.nil_prefix)
  | framing l _ _ hseek _ hwalk =>
    left
    rw [ideal, hseek]
    exact ⟨walk P s.buf, by simpa using (hwalk []).symm⟩
  | lost l es₁ es₂ hes _ hseek hwalk =>
    right
    have hideal : ideal P r = es₁ ++ [Event.desync] := by
      rw [ideal, hseek]
      simpa using hwalk []
    rw [hideal, hes]
    exact ⟨by simp, es₂, by simp⟩

end Follows

/-- Every run from the initial state follows the ideal framing of the bytes received. -/
theorem follows_of_run {bytes : List α} {es : List (Event α)} {s : State α}
    (h : Run P State.init bytes es s) : Follows P bytes es s := by
  simpa using Follows.init.run h

end Reassembly
