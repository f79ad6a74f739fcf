import Mathlib.Data.List.Infix
import Mathlib.Data.List.Basic

/-!
# Reassembly buffers

A receiver that cuts a byte stream into length-prefixed frames keeps the bytes it has not
consumed in a bounded buffer. Its source hands it the stream in pieces of any size. While it
is not synchronised it searches the buffer for a frame header; once it is, it consumes one
frame after each fill, by the length the frame itself states.

`Protocol` collects what such a receiver knows about its frames: the buffer capacity, the
header test and the verdict on the front of the buffer. `scan` is one look at a filled buffer,
`feed` takes a whole piece of the stream, filling the buffer as far as it will go each time,
and `Run` is any sequence of fills and looks, however the stream was cut.

## Main results

* `feed_run`: feeding a piece is a run, so every fact about runs holds for every cut;
* `Run.append`: runs compose;
* `Run.length_lt`: the buffer is never left full;
* `Run.suffix`: the buffer holds the last bytes received;
* `Run.windows`: the frames consumed are disjoint windows of the stream, in order;
* `Run.length_frames`: the bytes of the frames consumed and of the buffer are among those
  received.
-/

namespace Reassembly

variable {α : Type*}

/-- What the front of a synchronised buffer says about the frame that starts there. -/
inductive Verdict where
  /-- The frame is not complete yet. -/
  | wait
  /-- No frame can start with these bytes. -/
  | bogus
  /-- The first `n` bytes are a frame. -/
  | frame (n : ℕ)
  deriving DecidableEq, Repr

/-- A framing protocol over symbols `α`, with the laws that make it independent of how much of
the stream has arrived: a header and a verdict, once decided, stay decided. -/
structure Protocol (α : Type*) where
  /-- The size of the buffer. -/
  capacity : ℕ
  /-- How many bytes an unsuccessful search keeps of a full buffer. -/
  keep : ℕ
  /-- How many bytes the header test reads. -/
  headerLen : ℕ
  /-- Whether a frame header starts at the front of a list. -/
  header : List α → Bool
  /-- The verdict on the front of a list. -/
  verdict : List α → Verdict
  keep_lt : keep < capacity
  headerLen_le : headerLen ≤ keep + 1
  headerLen_pos : 0 < headerLen
  length_of_header : ∀ {l}, header l = true → headerLen ≤ l.length
  header_append : ∀ {l} (m), headerLen ≤ l.length → header (l ++ m) = header l
  verdict_append : ∀ {l} (m), verdict l ≠ .wait → verdict (l ++ m) = verdict l
  frame_bounds : ∀ {l n}, verdict l = .frame n → 0 < n ∧ n ≤ l.length
  frame_take : ∀ {l n}, verdict l = .frame n → verdict (l.take n) = .frame n
  wait_lt : ∀ {l}, verdict l = .wait → l.length < capacity

/-- The receiver's state: whether it is synchronised, and the bytes it has not consumed. -/
structure State (α : Type*) where
  synced : Bool
  buf : List α

/-- What one look at the buffer can report. -/
inductive Event (α : Type*) where
  /-- A frame was consumed. -/
  | frame (w : List α)
  /-- The verdict was `bogus`: the buffer was dropped and synchronisation lost. -/
  | desync
  deriving DecidableEq

namespace Event

/-- The bytes consumed by an event. -/
def bytes : Event α → List α
  | frame w => w
  | desync => []

@[simp] theorem bytes_frame (w : List α) : (frame w).bytes = w := rfl

@[simp] theorem bytes_desync : (desync : Event α).bytes = [] := rfl

end Event

/-- The bytes of a list of events, in order. -/
def bytesOf (es : List (Event α)) : List α := (es.map Event.bytes).flatten

@[simp] theorem bytesOf_nil : bytesOf ([] : List (Event α)) = [] := rfl

@[simp] theorem bytesOf_cons (e : Event α) (es : List (Event α)) :
    bytesOf (e :: es) = e.bytes ++ bytesOf es := rfl

@[simp] theorem bytesOf_append (es es' : List (Event α)) :
    bytesOf (es ++ es') = bytesOf es ++ bytesOf es' := by
  simp [bytesOf]

/-- The frames among a list of events. -/
def framesOf : List (Event α) → List (List α)
  | [] => []
  | .frame w :: es => w :: framesOf es
  | .desync :: es => framesOf es

@[simp] theorem framesOf_append (es es' : List (Event α)) :
    framesOf (es ++ es') = framesOf es ++ framesOf es' := by
  induction es with
  | nil => rfl
  | cons e es ih => cases e <;> simp [framesOf, ih]

@[simp] theorem framesOf_map_frame (ws : List (List α)) : framesOf (ws.map .frame) = ws := by
  induction ws with
  | nil => rfl
  | cons w ws ih => simp [framesOf, ih]

theorem mem_framesOf {w : List α} {es : List (Event α)} :
    w ∈ framesOf es ↔ Event.frame w ∈ es := by
  induction es with
  | nil => simp [framesOf]
  | cons e es ih => cases e <;> simp [framesOf, ih]

/-- `Windows ws l`: the lists `ws` occur in `l` one after the other, without overlap. -/
inductive Windows : List (List α) → List α → Prop
  | nil (l : List α) : Windows [] l
  | cons (gap : List α) {w l : List α} {ws : List (List α)} :
      Windows ws l → Windows (w :: ws) (gap ++ w ++ l)

namespace Windows

theorem prepend {ws : List (List α)} {l : List α} (x : List α) (h : Windows ws l) :
    Windows ws (x ++ l) := by
  cases h with
  | nil => exact .nil _
  | cons gap h =>
    rw [← List.append_assoc, ← List.append_assoc]
    exact .cons (x ++ gap) h

theorem append {ws : List (List α)} {l : List α} (h : Windows ws l) (x : List α) :
    Windows ws (l ++ x) := by
  induction h with
  | nil => exact .nil _
  | cons gap _ ih =>
    rw [List.append_assoc _ _ x]
    exact .cons gap ih

/-- Fewer windows still occur in order. -/
theorem sublist {ws ws' : List (List α)} {l : List α} (h : Windows ws l) (hs : ws'.Sublist ws) :
    Windows ws' l := by
  induction h generalizing ws' with
  | nil =>
    obtain rfl := List.sublist_nil.mp hs
    exact .nil _
  | cons gap _ ih =>
    cases hs with
    | cons _ hs => exact (ih hs).prepend _
    | cons_cons _ hs => exact .cons gap (ih hs)

end Windows

namespace State

/-- The state before the first byte. -/
def init : State α := ⟨false, []⟩

/-- A state with more bytes in its buffer. -/
def push (s : State α) (c : List α) : State α := { s with buf := s.buf ++ c }

@[simp] theorem push_synced (s : State α) (c : List α) : (s.push c).synced = s.synced := rfl

@[simp] theorem push_buf (s : State α) (c : List α) : (s.push c).buf = s.buf ++ c := rfl

end State

variable (P : Protocol α)

/-- A list that is exactly one frame. -/
def IsFrame (w : List α) : Prop := P.verdict w = .frame w.length

/-- The rest of a list from its first header on. -/
def seek : List α → Option (List α)
  | [] => none
  | a :: l => if P.header (a :: l) then some (a :: l) else seek l

/-- One look at a synchronised buffer. -/
def scanSynced (b : List α) : State α × Option (Event α) :=
  match P.verdict b with
  | .wait => (⟨true, b⟩, none)
  | .bogus => (⟨false, []⟩, some .desync)
  | .frame n => (⟨true, b.drop n⟩, some (.frame (b.take n)))

/-- One look at a buffer. A search that fails on a full buffer keeps its last `keep` bytes. -/
def scan (s : State α) : State α × Option (Event α) :=
  if s.synced then scanSynced P s.buf
  else
    match seek P s.buf with
    | some b => scanSynced P b
    | none =>
        if P.capacity ≤ s.buf.length then (⟨false, s.buf.drop (s.buf.length - P.keep)⟩, none)
        else (s, none)

/-- Take a piece of the stream: fill the buffer as far as it goes, look at it, and repeat. -/
def feed (s : State α) (bytes : List α) : State α × List (Event α) :=
  if _h : min bytes.length (P.capacity - s.buf.length) = 0 then (s, [])
  else
    let n := min bytes.length (P.capacity - s.buf.length)
    let look := scan P (s.push (bytes.take n))
    let rest := feed look.1 (bytes.drop n)
    (rest.1, look.2.toList ++ rest.2)
termination_by bytes.length
decreasing_by
  simp only [List.length_drop]
  omega

/-- `Run P s bytes es s'`: from `s`, some way of cutting `bytes` into fills and looks leads to
`s'` and reports `es`. -/
inductive Run : State α → List α → List (Event α) → State α → Prop
  | nil (s : State α) : Run s [] [] s
  | fill {s s₁ s₂ : State α} {c bytes : List α} {e : Option (Event α)} {es : List (Event α)} :
      s.buf.length + c.length ≤ P.capacity → scan P (s.push c) = (s₁, e) →
      Run s₁ bytes es s₂ → Run s (c ++ bytes) (e.toList ++ es) s₂

variable {P}

/-! ### One look -/

theorem seek_suffix {l m : List α} (h : seek P l = some m) : m <:+ l := by
  induction l with
  | nil => simp [seek] at h
  | cons a l ih =>
    rw [seek] at h
    split at h
    · cases h
      exact List.suffix_refl _
    · exact (ih h).trans (List.suffix_cons a l)

theorem scanSynced_of_wait {b : List α} (h : P.verdict b = .wait) :
    scanSynced P b = (⟨true, b⟩, none) := by
  simp [scanSynced, h]

theorem scanSynced_of_bogus {b : List α} (h : P.verdict b = .bogus) :
    scanSynced P b = (⟨false, []⟩, some .desync) := by
  simp [scanSynced, h]

theorem scanSynced_of_frame {b : List α} {n : ℕ} (h : P.verdict b = .frame n) :
    scanSynced P b = (⟨true, b.drop n⟩, some (.frame (b.take n))) := by
  simp [scanSynced, h]

/-- A look that reports nothing leaves a synchronised buffer as it is. -/
theorem eq_of_scanSynced_none {b : List α} {s : State α} (h : scanSynced P b = (s, none)) :
    s = ⟨true, b⟩ := by
  unfold scanSynced at h
  split at h <;> cases h
  rfl

/-- What a look at a synchronised buffer leaves and reports is the end and the front of it. -/
theorem scanSynced_bytes {b : List α} {s : State α} {e : Option (Event α)}
    (h : scanSynced P b = (s, e)) :
    bytesOf e.toList ++ s.buf = b ∨ (e = some .desync ∧ s = ⟨false, []⟩) := by
  unfold scanSynced at h
  -- `wait` and `frame` only split the buffer, `bogus` drops it
  split at h <;> cases h
  · left; simp
  · right; simp
  · left; simp

theorem scanSynced_length_lt {b : List α} {s : State α} {e : Option (Event α)}
    (hb : b.length ≤ P.capacity) (h : scanSynced P b = (s, e)) : s.buf.length < P.capacity := by
  have hkeep := P.keep_lt
  unfold scanSynced at h
  split at h <;> cases h
  case h_1 hv => exact P.wait_lt hv
  case h_2 => simp only [List.length_nil]; omega
  case h_3 n hv =>
    have hn := P.frame_bounds hv
    simp only [List.length_drop]
    omega

/-- A look takes an event's bytes out of the buffer and leaves an end of what follows them. -/
theorem scan_split {s s' : State α} {e : Option (Event α)} (h : scan P s = (s', e)) :
    ∃ x y, s.buf = x ++ bytesOf e.toList ++ y ++ s'.buf := by
  have key : ∀ b, b <:+ s.buf → scanSynced P b = (s', e) →
      ∃ x y, s.buf = x ++ bytesOf e.toList ++ y ++ s'.buf := by
    -- `x` is what the search skipped
    rintro b ⟨x, hx⟩ hb
    rcases scanSynced_bytes hb with rfl | ⟨rfl, rfl⟩
    · exact ⟨x, [], by simp [← hx]⟩
    · exact ⟨s.buf, [], by simp⟩
  unfold scan at h
  split at h
  · exact key _ (List.suffix_refl _) h
  · split at h
    next b hb => exact key b (seek_suffix hb) h
    next =>
      -- a failed search drops the front of a full buffer
      split at h <;> cases h
      · exact ⟨s.buf.take (s.buf.length - P.keep), [], by simp⟩
      · exact ⟨[], [], by simp⟩

/-- The buffer after a look is an end of the buffer before it. -/
theorem scan_suffix {s s' : State α} {e : Option (Event α)} (h : scan P s = (s', e)) :
    s'.buf <:+ s.buf := by
  obtain ⟨x, y, hxy⟩ := scan_split h
  exact ⟨_, hxy.symm⟩

/-- The bytes an event consumes and those left in the buffer were in the buffer. -/
theorem scan_length_bytes {s s' : State α} {e : Option (Event α)} (h : scan P s = (s', e)) :
    (bytesOf e.toList).length + s'.buf.length ≤ s.buf.length := by
  obtain ⟨x, y, hxy⟩ := scan_split h
  have := congrArg List.length hxy
  simp only [List.length_append] at this
  omega

/-- A consumed frame is exactly one frame. -/
theorem scan_isFrame {s s' : State α} {w : List α} (h : scan P s = (s', some (.frame w))) :
    IsFrame P w := by
  -- synchronised or after a search, the frame comes from `scanSynced`
  have key : ∀ b, scanSynced P b = (s', some (.frame w)) → IsFrame P w := by
    intro b hb
    unfold scanSynced at hb
    split at hb <;> cases hb
    next n hv =>
      have hn := P.frame_bounds hv
      rw [IsFrame, P.frame_take hv, List.length_take, min_eq_left hn.2]
  unfold scan at h
  split at h
  · exact key _ h
  · split at h
    · exact key _ h
    · split at h <;> cases h

/-- A look at a buffer within capacity leaves room in it. -/
theorem scan_length_lt {s s' : State α} {e : Option (Event α)}
    (hs : s.buf.length ≤ P.capacity) (h : scan P s = (s', e)) : s'.buf.length < P.capacity := by
  have hkeep := P.keep_lt
  unfold scan at h
  split at h
  · exact scanSynced_length_lt hs h
  · split at h
    next b hb => exact scanSynced_length_lt ((seek_suffix hb).length_le.trans hs) h
    next =>
      split at h <;> cases h
      · simp only [List.length_drop]; omega
      · omega

/-! ### Runs -/

namespace Run

/-- Runs compose. -/
theorem append {s s₁ s₂ : State α} {b₁ b₂ : List α} {es₁ es₂ : List (Event α)}
    (h₁ : Run P s b₁ es₁ s₁) (h₂ : Run P s₁ b₂ es₂ s₂) : Run P s (b₁ ++ b₂) (es₁ ++ es₂) s₂ := by
  induction h₁ with
  | nil => exact h₂
  | fill hc hscan _ ih =>
    rw [List.append_assoc, List.append_assoc]
    exact .fill hc hscan (ih h₂)

/-- The buffer is never left full. -/
theorem length_lt {s s' : State α} {bytes : List α} {es : List (Event α)}
    (h : Run P s bytes es s') (hs : s.buf.length < P.capacity) : s'.buf.length < P.capacity := by
  induction h with
  | nil => exact hs
  | fill hc hscan _ ih => exact ih (scan_length_lt (by simp [hc]) hscan)

/-- The buffer holds the last bytes received. -/
theorem suffix {s s' : State α} {bytes : List α} {es : List (Event α)}
    (h : Run P s bytes es s') : s'.buf <:+ s.buf ++ bytes := by
  induction h with
  | nil => simp
  | @fill s s₁ s₂ c bytes e es _ hscan _ ih =>
    have h₁ : s₁.buf <:+ s.buf ++ c := scan_suffix hscan
    rw [← List.append_assoc]
    exact ih.trans ((List.suffix_append_self_iff).mpr h₁)

/-- The bytes of the frames consumed and of the buffer are no more than those received. -/
theorem length_frames {s s' : State α} {bytes : List α} {es : List (Event α)}
    (h : Run P s bytes es s') :
    (bytesOf es).length + s'.buf.length ≤ s.buf.length + bytes.length := by
  induction h with
  | nil => simp
  | fill _ hscan _ ih =>
    have h₁ := scan_length_bytes hscan
    simp only [State.push_buf, List.length_append, bytesOf_append] at h₁ ih ⊢
    omega

/-- Every frame consumed is exactly one frame. -/
theorem isFrame {s s' : State α} {bytes : List α} {es : List (Event α)} (h : Run P s bytes es s')
    {w : List α} (hw : w ∈ framesOf es) : IsFrame P w := by
  rw [mem_framesOf] at hw
  induction h with
  | nil => cases hw
  | fill _ hscan _ ih =>
    rcases List.mem_append.mp hw with hw | hw
    · rw [Option.mem_toList] at hw
      exact scan_isFrame (hscan.trans (by rw [Option.mem_def.mp hw]))
    · exact ih hw

/-- The frames consumed are disjoint windows of what was received, in order. -/
theorem windows {s s' : State α} {bytes : List α} {es : List (Event α)}
    (h : Run P s bytes es s') : Windows (framesOf es) (s.buf ++ bytes) := by
  induction h with
  | nil => exact .nil _
  | @fill s s₁ s₂ c bytes e es _ hscan _ ih =>
    obtain ⟨x, y, hxy⟩ := scan_split hscan
    rw [State.push_buf] at hxy
    rw [← List.append_assoc, hxy, framesOf_append, List.append_assoc _ _ bytes,
      List.append_assoc _ y]
    -- the bytes before and after the frame of this look fall between the windows
    rcases e with - | w | -
    · exact (ih.prepend y).prepend _
    · simpa [framesOf] using Windows.cons x (ih.prepend y)
    · exact (ih.prepend y).prepend _

end Run

/-- Feeding nothing changes nothing. -/
@[simp] theorem feed_nil (s : State α) : feed P s [] = (s, []) := by
  rw [feed, dif_pos (by simp)]

/-- A piece for which the buffer has room is one fill and one look. -/
theorem feed_of_le {s : State α} {bytes : List α} (hne : bytes ≠ [])
    (h : s.buf.length + bytes.length ≤ P.capacity) :
    feed P s bytes = ((scan P (s.push bytes)).1, (scan P (s.push bytes)).2.toList) := by
  have hpos : 0 < bytes.length := List.length_pos_iff.mpr hne
  have hmin : min bytes.length (P.capacity - s.buf.length) = bytes.length := by omega
  rw [feed, dif_neg (by omega)]
  simp only [hmin, List.take_length, List.drop_length, feed_nil, List.append_nil]

/-- Feeding a piece of the stream to a buffer with room in it is a run. -/
theorem feed_run (s : State α) (bytes : List α) (hs : s.buf.length < P.capacity) :
    Run P s bytes (feed P s bytes).2 (feed P s bytes).1 := by
  induction s, bytes using feed.induct P with
  | case1 s bytes h =>
    have hb : bytes = [] := List.eq_nil_of_length_eq_zero (by omega)
    subst hb
    rw [feed, dif_pos h]
    exact .nil s
  | case2 s bytes h n look ih =>
    have hc : s.buf.length + (bytes.take n).length ≤ P.capacity := by
      simp only [List.length_take, n]
      omega
    have hlook : scan P (s.push (bytes.take n)) = (look.1, look.2) := rfl
    -- one fill, then the rest of the piece from a buffer with room again
    have hroom : look.1.buf.length < P.capacity :=
      scan_length_lt (by simpa only [State.push_buf, List.length_append] using hc) hlook
    have hrun := Run.fill hc hlook (ih hroom)
    rw [List.take_append_drop] at hrun
    rw [feed, dif_neg h]
    exact hrun

end Reassembly
