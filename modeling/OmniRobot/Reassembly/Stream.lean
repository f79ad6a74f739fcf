import OmniRobot.Reassembly.Walk

/-!
# Runs on an endless stream

A stream that never ends is a function from positions to symbols, and what a receiver holds of
it is a slice. To say what such a receiver does next it is enough to say what the first event of
a run can be, from a synchronised and from a searching state.

## Main results

* `Run.split`: a run passes any given number of received bytes within one buffer;
* `Run.first_of_synced`: the first event from a synchronised state;
* `Run.first_of_searching`: the first header found from a searching state.
-/

namespace Reassembly

variable {α : Type*}

/-! ### Slices -/

/-- The `k` symbols of a stream from position `p` on. -/
def slice (g : ℕ → α) (p k : ℕ) : List α := (List.range k).map fun i => g (p + i)

section Slice

variable (g : ℕ → α) (p k l : ℕ)

@[simp] theorem length_slice : (slice g p k).length = k := by simp [slice]

theorem getElem_slice {i : ℕ} (h : i < (slice g p k).length) : (slice g p k)[i] = g (p + i) := by
  simp [slice]

theorem slice_append : slice g p k ++ slice g (p + k) l = slice g p (k + l) := by
  simp [slice, List.range_add, Function.comp_def, Nat.add_assoc]

theorem take_slice {j : ℕ} (h : j ≤ k) : (slice g p k).take j = slice g p j := by
  obtain ⟨l, rfl⟩ := Nat.exists_eq_add_of_le h
  rw [← slice_append, List.take_left' (length_slice g p j)]

theorem drop_slice {j : ℕ} (h : j ≤ k) : (slice g p k).drop j = slice g (p + j) (k - j) := by
  obtain ⟨l, rfl⟩ := Nat.exists_eq_add_of_le h
  rw [← slice_append, List.drop_left' (length_slice g p j), Nat.add_sub_cancel_left]

variable {g p k}

/-- Two lists that make up a slice are slices. -/
theorem eq_slice_of_append {b c : List α} (h : b ++ c = slice g p k) :
    b = slice g p b.length ∧ c = slice g (p + b.length) c.length := by
  have hlen : b.length + c.length = k := by
    simpa using congrArg List.length h
  have hb := congrArg (List.take b.length) h
  have hc := congrArg (List.drop b.length) h
  rw [List.take_left, take_slice g p k (by omega)] at hb
  rw [List.drop_left, drop_slice g p k (by omega), ← hlen, Nat.add_sub_cancel_left] at hc
  exact ⟨hb, hc⟩

/-- An end of a slice is a slice. -/
theorem eq_slice_of_suffix {y : List α} (h : y <:+ slice g p k) :
    y.length ≤ k ∧ y = slice g (p + (k - y.length)) y.length := by
  obtain ⟨x, hx⟩ := h
  have hlen : x.length + y.length = k := by simpa using congrArg List.length hx
  have hy := (eq_slice_of_append hx).2
  rw [show x.length = k - y.length by omega] at hy
  exact ⟨by omega, hy⟩

/-- A slice ends with any shorter slice that ends where it does. -/
theorem slice_suffix {q x : ℕ} (hqx : q ≤ x) (hx : x ≤ q + k) :
    slice g x (k - (x - q)) <:+ slice g q k := by
  have happend := slice_append g q (x - q) (k - (x - q))
  rw [Nat.add_sub_cancel' hqx, Nat.add_sub_cancel' (by omega)] at happend
  exact ⟨_, happend⟩

end Slice

/-! ### Parts of a run -/

variable {P : Protocol α}

/-- A run passes any number of received bytes, give or take one buffer. -/
theorem Run.split {s s' : State α} {bytes : List α} {es : List (Event α)}
    (h : Run P s bytes es s') {n : ℕ} (hn : n ≤ bytes.length) :
    ∃ b₁ b₂ es₁ es₂ s₁, bytes = b₁ ++ b₂ ∧ es = es₁ ++ es₂ ∧ Run P s b₁ es₁ s₁ ∧
      Run P s₁ b₂ es₂ s' ∧ n ≤ b₁.length ∧ b₁.length ≤ n + P.capacity := by
  induction h generalizing n with
  | nil s =>
    exact ⟨[], [], [], [], s, rfl, rfl, .nil s, .nil s, hn, Nat.zero_le _⟩
  | @fill s s₁ s₂ c bytes e es hc hscan hrun ih =>
    -- the fill that passes `n` overshoots by less than a buffer
    by_cases hle : n ≤ c.length
    · refine ⟨c, bytes, e.toList, es, s₁, rfl, rfl, ?_, hrun, hle, by omega⟩
      simpa using Run.fill hc hscan (.nil s₁)
    · rw [List.length_append] at hn
      obtain ⟨b₁, b₂, es₁, es₂, t, rfl, rfl, h₁, h₂, hlo, hhi⟩ := ih (n := n - c.length) (by omega)
      refine ⟨c ++ b₁, b₂, e.toList ++ es₁, es₂, t, by simp, by simp, .fill hc hscan h₁, h₂, ?_, ?_⟩
        <;> simp only [List.length_append] <;> omega

/-- From a synchronised state, either nothing happens and the buffer takes all the bytes, or the
first event is the verdict on the buffer and the bytes up to some point. -/
theorem Run.first_of_synced {s s' : State α} {bytes : List α} {es : List (Event α)}
    (h : Run P s bytes es s') (hs : s.synced = true) :
    (es = [] ∧ s' = s.push bytes) ∨
      ∃ b₁ b₂ e es' s₁, bytes = b₁ ++ b₂ ∧ es = e :: es' ∧
        s.buf.length + b₁.length ≤ P.capacity ∧
        scanSynced P (s.buf ++ b₁) = (s₁, some e) ∧ Run P s₁ b₂ es' s' := by
  induction h with
  | nil s => exact .inl ⟨rfl, by simp [State.push]⟩
  | @fill s s₁ s₂ c bytes e es hc hscan hrun ih =>
    have hscan' : scanSynced P (s.buf ++ c) = (s₁, e) := by
      rwa [scan, State.push_synced, hs, if_pos rfl] at hscan
    cases e with
    | some e => exact .inr ⟨c, bytes, e, es, s₁, rfl, rfl, hc, hscan', hrun⟩
    | none =>
      -- the verdict was `wait`: the buffer has grown by `c`
      have hs₁ : s₁ = s.push c := by
        rw [eq_of_scanSynced_none hscan', State.push, hs]
      subst hs₁
      rcases ih hs with ⟨rfl, rfl⟩ | ⟨b₁, b₂, e, es', t, rfl, rfl, hcap, hfirst, hrest⟩
      · exact .inl ⟨rfl, by simp [State.push]⟩
      · refine .inr ⟨c ++ b₁, b₂, e, es', t, by simp, rfl, ?_, ?_, hrest⟩
        · simpa [Nat.add_assoc] using hcap
        · simpa using hfirst

/-- From a searching state, either no header ever arrives, or the first one is found as soon as it
has. -/
theorem Run.first_of_searching {s s' : State α} {bytes : List α} {es : List (Event α)}
    (h : Run P s bytes es s') (hs : s.synced = false) (hne : bytes ≠ []) :
    seek P (s.buf ++ bytes) = none ∨
      ∃ b₁ b₂ m e es' s₁, bytes = b₁ ++ b₂ ∧ es = e.toList ++ es' ∧
        seek P (s.buf ++ b₁) = some m ∧ scanSynced P m = (s₁, e) ∧ Run P s₁ b₂ es' s' := by
  -- `r` is what the search would hold if it never dropped anything
  suffices key : ∀ r, s.buf <:+ r → (∀ c, seek P (r ++ c) = seek P (s.buf ++ c)) →
      bytes = [] ∨ seek P (r ++ bytes) = none ∨
        ∃ b₁ b₂ m e es' s₁, bytes = b₁ ++ b₂ ∧ es = e.toList ++ es' ∧
          seek P (r ++ b₁) = some m ∧ scanSynced P m = (s₁, e) ∧ Run P s₁ b₂ es' s' from
    (key s.buf (List.suffix_refl _) fun _ => rfl).resolve_left hne
  clear hne
  induction h with
  | nil s => exact fun _ _ _ => .inl rfl
  | @fill s s₁ s₂ c bytes e es hc hscan hrun ih =>
    intro r hr hsame
    right
    rw [scan, State.push_synced, hs, if_neg (by simp)] at hscan
    split at hscan
    next m hm =>
      rw [State.push_buf, ← hsame] at hm
      exact .inr ⟨c, bytes, m, e, es, s₁, rfl, rfl, hm, hscan, hrun⟩
    next hm =>
      rw [State.push_buf] at hm
      have hrc : seek P (r ++ c) = none := by rw [hsame, hm]
      -- the state after the fill is still good for `r ++ c`
      have hnext : s₁.synced = false ∧ e = none ∧ s₁.buf <:+ r ++ c ∧
          ∀ d, seek P (r ++ c ++ d) = seek P (s₁.buf ++ d) := by
        have hsuffix : s.buf ++ c <:+ r ++ c := (List.suffix_append_self_iff).mpr hr
        have := P.keep_lt
        split at hscan <;> cases hscan
        next hfull =>
          have hdrop := (List.drop_suffix ((s.buf ++ c).length - P.keep) _).trans hsuffix
          refine ⟨rfl, rfl, hdrop, fun d => seek_append_of_suffix hrc hdrop (.inr ?_) d⟩
          simp only [State.push_buf] at hfull
          rw [List.length_drop]
          omega
        next =>
          refine ⟨hs, rfl, hsuffix, fun d => ?_⟩
          rw [List.append_assoc, hsame, State.push_buf, List.append_assoc]
      obtain ⟨hs₁, rfl, hsuffix, hsame'⟩ := hnext
      rcases ih hs₁ (r ++ c) hsuffix hsame' with rfl | hnone | ⟨b₁, b₂, m, e, es', t, rfl, hes, hm',
        hfirst, hrest⟩
      · left
        simpa using hrc
      · left
        simpa using hnone
      · exact .inr ⟨c ++ b₁, b₂, m, e, es', t, by simp, by simpa using hes, by simpa using hm',
          hfirst, hrest⟩

/-- No end longer than the one a search finds starts with a header. -/
theorem header_eq_false_of_seek {l m y : List α} (h : seek P l = some m) (hy : y <:+ l)
    (hlen : m.length < y.length) : P.header y = false := by
  induction l with
  | nil => simp [seek] at h
  | cons a l ih =>
    rw [seek] at h
    rcases List.suffix_cons_iff.mp hy with rfl | hy
    · -- a header at the front would have been the one found
      by_contra hh
      rw [if_pos (by simpa using hh)] at h
      cases h
      omega
    · split at h
      next =>
        cases h
        have := hy.length_le
        simp only [List.length_cons] at hlen
        omega
      next => exact ih h hy

end Reassembly
