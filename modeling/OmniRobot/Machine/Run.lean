import Mathlib.Data.List.Basic

/-!
# Runs of a deterministic machine

A machine takes one input after the other, may fail, and observes something at each step. `run`
lists the states it passes and its observations. What every step does, every run does: the rules
below carry totality, invariants and relations between two machines or two runs from one step to
a run.

## Main results

* `exists_run`: a machine that never fails from states with an invariant runs on any input;
* `step_of_run`: each place of a run is a step from the place before;
* `run_induction`: what each step carries on, after any number of steps;
* `exists_last_write`: a variable that only some steps write;
* `run_forall`: what each step guarantees, at every place of a run;
* `run_refines`: a relation to an abstract machine, from one step to a run;
* `run_log`: a relation to the list of all events, for a run whose steps all meet a condition;
* `run_lockstep`: a relation between two runs on the same inputs.
-/

namespace Machine

variable {ε I S O : Type*}

/-- The states after each input, with what was observed there. -/
def run (step : I → S → Except ε (S × O)) : List I → S → Except ε (List (S × O))
  | [], _ => .ok []
  | i :: is, s =>
      match step i s with
      | .error e => .error e
      | .ok r =>
          match run step is r.1 with
          | .error e => .error e
          | .ok rs => .ok (r :: rs)

/-- The state that a run from `s` ends in. -/
def final (s : S) (rs : List (S × O)) : S := (rs.getLast?.map Prod.fst).getD s

variable {step : I → S → Except ε (S × O)}

@[simp] theorem run_nil (s : S) : run step [] s = .ok [] := rfl

@[simp] theorem final_nil (s : S) : final s ([] : List (S × O)) = s := rfl

@[simp] theorem final_cons (s : S) (r : S × O) (rs : List (S × O)) :
    final s (r :: rs) = final r.1 rs := by
  rw [final, final, List.getLast?_cons]
  cases rs.getLast? <;> rfl

@[simp] theorem final_append (s : S) (rs rs' : List (S × O)) :
    final s (rs ++ rs') = final (final s rs) rs' := by
  induction rs generalizing s with
  | nil => rfl
  | cons r rs ih => rw [List.cons_append, final_cons, ih, final_cons]

/-- A run is a step and a run from there. -/
theorem run_cons_eq_ok {i : I} {is : List I} {s : S} {rs : List (S × O)} :
    run step (i :: is) s = .ok rs ↔
      ∃ r rest, step i s = .ok r ∧ run step is r.1 = .ok rest ∧ rs = r :: rest := by
  rw [run]
  constructor
  · intro h
    split at h
    · cases h
    next r hr =>
      split at h
      · cases h
      next rest hrest =>
        cases h
        exact ⟨r, rest, hr, hrest, rfl⟩
  · rintro ⟨r, rest, hr, hrest, rfl⟩
    simp only [hr, hrest]

theorem length_of_run {is : List I} {s : S} {rs : List (S × O)} (h : run step is s = .ok rs) :
    rs.length = is.length := by
  induction is generalizing s rs with
  | nil => cases h; rfl
  | cons i is ih =>
    obtain ⟨r, rest, -, hrest, rfl⟩ := run_cons_eq_ok.mp h
    rw [List.length_cons, List.length_cons, ih hrest]

/-- A run from where a run ends continues it. -/
theorem run_append {is is' : List I} {s : S} {rs rs' : List (S × O)} (h : run step is s = .ok rs)
    (h' : run step is' (final s rs) = .ok rs') : run step (is ++ is') s = .ok (rs ++ rs') := by
  induction is generalizing s rs with
  | nil =>
    cases h
    exact h'
  | cons i is ih =>
    obtain ⟨r, rest, hr, hrest, rfl⟩ := run_cons_eq_ok.mp h
    rw [final_cons] at h'
    exact run_cons_eq_ok.mpr ⟨r, rest ++ rs', hr, ih hrest h', rfl⟩

/-- A run on two lists of inputs is a run on the first and one from there. -/
theorem exists_of_run_append {is is' : List I} {s : S} {rs : List (S × O)}
    (h : run step (is ++ is') s = .ok rs) :
    ∃ rs₁ rs₂, run step is s = .ok rs₁ ∧ run step is' (final s rs₁) = .ok rs₂ ∧
      rs = rs₁ ++ rs₂ := by
  induction is generalizing s rs with
  | nil => exact ⟨[], rs, rfl, h, rfl⟩
  | cons i is ih =>
    obtain ⟨r, rest, hr, hrest, rfl⟩ := run_cons_eq_ok.mp h
    obtain ⟨rs₁, rs₂, h₁, h₂, rfl⟩ := ih hrest
    exact ⟨r :: rs₁, rs₂, run_cons_eq_ok.mpr ⟨r, rs₁, hr, h₁, rfl⟩, by rwa [final_cons], rfl⟩

/-- The first steps of a run are a run. -/
theorem run_take {is : List I} {s : S} {rs : List (S × O)} (h : run step is s = .ok rs) (k : ℕ) :
    run step (is.take k) s = .ok (rs.take k) := by
  induction is generalizing s rs k with
  | nil => cases h; simp
  | cons i is ih =>
    obtain ⟨r, rest, hr, hrest, rfl⟩ := run_cons_eq_ok.mp h
    cases k with
    | zero => rfl
    | succ k => exact run_cons_eq_ok.mpr ⟨r, rest.take k, hr, ih hrest k, rfl⟩

/-- The state after the first `k + 1` steps is the one listed at place `k`. -/
theorem final_take_succ {s : S} {rs : List (S × O)} {k : ℕ} {r : S × O} (h : rs[k]? = some r) :
    final s (rs.take (k + 1)) = r.1 := by
  rw [List.take_add_one, h, final_append]
  rfl

/-- Each place of a run is one step from the state before it. -/
theorem step_of_run {is : List I} {s : S} {rs : List (S × O)} (h : run step is s = .ok rs)
    {k : ℕ} {r : S × O} (hk : rs[k]? = some r) :
    ∃ i, is[k]? = some i ∧ step i (final s (rs.take k)) = .ok r := by
  induction is generalizing s rs k with
  | nil => cases h; simp at hk
  | cons i is ih =>
    obtain ⟨r₀, rest, hr₀, hrest, rfl⟩ := run_cons_eq_ok.mp h
    cases k with
    | zero =>
      obtain rfl : r₀ = r := by simpa using hk
      exact ⟨i, rfl, hr₀⟩
    | succ k =>
      obtain ⟨j, hj, hstep⟩ := ih hrest (by simpa using hk)
      exact ⟨j, by simpa using hj, by rwa [List.take_succ_cons, final_cons]⟩

/-- What holds at the start and is carried on by each step holds after any number of steps; it may
speak of that number. -/
theorem run_induction {P : ℕ → S → Prop} {is : List I} {s : S} {rs : List (S × O)}
    (hstep : ∀ k i s r, is[k]? = some i → P k s → step i s = .ok r → P (k + 1) r.1)
    (hs : P 0 s) (h : run step is s = .ok rs) {k : ℕ} (hk : k ≤ is.length) :
    P k (final s (rs.take k)) := by
  induction k with
  | zero => exact hs
  | succ k ih =>
    have hlt : k < rs.length := by
      rw [length_of_run h]
      exact hk
    have hr : rs[k]? = some rs[k] := List.getElem?_eq_getElem hlt
    obtain ⟨i, hi, hr'⟩ := step_of_run h hr
    rw [final_take_succ hr]
    exact hstep k i _ _ hi (ih (Nat.le_of_succ_le hk)) hr'

/-- What a register holds that only some steps write: its first value, or what the last of these
steps has left. -/
theorem exists_last_write {V : Type*} {W : ℕ → Prop} (reg : ℕ → V) {n : ℕ}
    (hkeep : ∀ k < n, ¬ W k → reg (k + 1) = reg k) :
    ((∀ j < n, ¬ W j) ∧ reg n = reg 0) ∨
      ∃ j < n, W j ∧ (∀ l, j < l → l < n → ¬ W l) ∧ reg n = reg (j + 1) := by
  induction n with
  | zero => exact .inl ⟨fun j hj => absurd hj (Nat.not_lt_zero j), rfl⟩
  | succ n ih =>
    by_cases hn : W n
    · right
      refine ⟨n, Nat.lt_succ_self n, hn, fun l hl hl' => ?_, rfl⟩
      omega
    · have hlast := hkeep n (Nat.lt_succ_self n) hn
      rcases ih fun k hk => hkeep k (Nat.lt_succ_of_lt hk) with ⟨hnone, hreg⟩ |
        ⟨j, hj, hw, hnone, hreg⟩
      · left
        refine ⟨fun j hj => ?_, hlast.trans hreg⟩
        rcases Nat.lt_succ_iff_lt_or_eq.mp hj with hj | rfl
        exacts [hnone j hj, hn]
      · right
        refine ⟨j, Nat.lt_succ_of_lt hj, hw, fun l hl hl' => ?_, hlast.trans hreg⟩
        rcases Nat.lt_succ_iff_lt_or_eq.mp hl' with hl' | rfl
        exacts [hnone l hl hl', hn]

/-- A machine that never fails from states with an invariant runs on any inputs. -/
theorem exists_run {P : S → Prop} (htotal : ∀ i s, P s → ∃ r, step i s = .ok r ∧ P r.1)
    (is : List I) {s : S} (hs : P s) : ∃ rs, run step is s = .ok rs ∧ P (final s rs) := by
  induction is generalizing s with
  | nil => exact ⟨[], rfl, hs⟩
  | cons i is ih =>
    obtain ⟨r, hr, hinv⟩ := htotal i s hs
    obtain ⟨rs, hrs, hfinal⟩ := ih hinv
    exact ⟨r :: rs, run_cons_eq_ok.mpr ⟨r, rs, hr, hrs, rfl⟩, by rwa [final_cons]⟩

/-- An invariant `P` that every step keeps, and a guarantee `Q` that every step from it gives,
hold at every place of a run. -/
theorem run_forall {P : S → Prop} {Q : S × O → Prop}
    (hstep : ∀ i s r, P s → step i s = .ok r → P r.1 ∧ Q r) {is : List I} {s : S}
    {rs : List (S × O)} (hs : P s) (h : run step is s = .ok rs) :
    P (final s rs) ∧ ∀ r ∈ rs, P r.1 ∧ Q r := by
  induction is generalizing s rs with
  | nil => cases h; exact ⟨hs, fun _ hr => absurd hr List.not_mem_nil⟩
  | cons i is ih =>
    obtain ⟨r, rest, hr, hrest, rfl⟩ := run_cons_eq_ok.mp h
    obtain ⟨hinv, hpost⟩ := hstep i s r hs hr
    obtain ⟨hfinal, hall⟩ := ih hinv hrest
    rw [final_cons]
    refine ⟨hfinal, fun r' hr' => ?_⟩
    rcases List.mem_cons.mp hr' with rfl | hr'
    · exact ⟨hinv, hpost⟩
    · exact hall r' hr'

/-- The machine refines an abstract one. If a relation `R` between states survives each step when
the abstract state is updated with the input and the observation, it survives a run. -/
theorem run_refines {A : Type*} {R : S → A → Prop} (update : A → I → O → A)
    (hstep : ∀ i s r a, R s a → step i s = .ok r → R r.1 (update a i r.2))
    {is : List I} {s : S} {rs : List (S × O)} {a : A} (hs : R s a) (h : run step is s = .ok rs) :
    R (final s rs) ((is.zip (rs.map Prod.snd)).foldl (fun a io => update a io.1 io.2) a) := by
  induction is generalizing s rs a with
  | nil => cases h; exact hs
  | cons i is ih =>
    obtain ⟨r, rest, hr, hrest, rfl⟩ := run_cons_eq_ok.mp h
    rw [final_cons, List.map_cons, List.zip_cons_cons, List.foldl_cons]
    exact ih (hstep i s r a hs hr) hrest

/-- The same, for an abstract state that only the observations change. -/
theorem run_refines_observed {A : Type*} {R : S → A → Prop} (update : A → O → A)
    (hstep : ∀ i s r a, R s a → step i s = .ok r → R r.1 (update a r.2))
    {is : List I} {s : S} {rs : List (S × O)} {a : A} (hs : R s a) (h : run step is s = .ok rs) :
    R (final s rs) ((rs.map Prod.snd).foldl update a) := by
  induction is generalizing s rs a with
  | nil => cases h; exact hs
  | cons i is ih =>
    obtain ⟨r, rest, hr, hrest, rfl⟩ := run_cons_eq_ok.mp h
    rw [final_cons, List.map_cons, List.foldl_cons]
    exact ih (hstep i s r a hs hr) hrest

/-- A condition on every step of a run: on its input and on the state before it. -/
def Along (C : I → S → Prop) (is : List I) (s : S) (rs : List (S × O)) : Prop :=
  ∀ p ∈ is.zip (s :: rs.map Prod.fst), C p.1 p.2

instance (C : I → S → Prop) [∀ i s, Decidable (C i s)] (is : List I) (s : S)
    (rs : List (S × O)) : Decidable (Along C is s rs) :=
  inferInstanceAs (Decidable (∀ p ∈ is.zip (s :: rs.map Prod.fst), C p.1 p.2))

theorem along_cons {C : I → S → Prop} {i : I} {is : List I} {s : S} {r : S × O}
    {rs : List (S × O)} : Along C (i :: is) s (r :: rs) ↔ C i s ∧ Along C is r.1 rs := by
  rw [Along, List.map_cons, List.zip_cons_cons, List.forall_mem_cons, Along]

/-- A condition that every state meets, for each input of the run. -/
theorem along_of_forall {C : I → S → Prop} {is : List I} (h : ∀ i ∈ is, ∀ s, C i s) (s : S)
    (rs : List (S × O)) : Along C is s rs :=
  fun p hp => h p.1 (List.of_mem_zip hp).1 p.2

/-- All events of a run, in order. -/
def log {E : Type*} (rs : List (S × List E)) : List E := (rs.map Prod.snd).flatten

@[simp] theorem log_nil {E : Type*} : log ([] : List (S × List E)) = [] := rfl

@[simp] theorem log_cons {E : Type*} (r : S × List E) (rs : List (S × List E)) :
    log (r :: rs) = r.2 ++ log rs := rfl

/-- The state and the log. If a relation between them survives each step that meets a condition,
it survives a run whose steps all do. -/
theorem run_log {E : Type*} {step : I → S → Except ε (S × List E)} {C : I → S → Prop}
    {R : S → List E → Prop}
    (hstep : ∀ i s r l, C i s → R s l → step i s = .ok r → R r.1 (l ++ r.2))
    {is : List I} {s : S} {rs : List (S × List E)} {l : List E} (hs : R s l)
    (h : run step is s = .ok rs) (hC : Along C is s rs) : R (final s rs) (l ++ log rs) := by
  induction is generalizing s rs l with
  | nil =>
    cases h
    rw [log_nil, List.append_nil]
    exact hs
  | cons i is ih =>
    obtain ⟨r, rest, hr, hrest, rfl⟩ := run_cons_eq_ok.mp h
    obtain ⟨hi, htail⟩ := along_cons.mp hC
    rw [final_cons, log_cons, ← List.append_assoc]
    exact ih (hstep i s r l hi hs hr) hrest htail

/-- Two runs on the same inputs. If a relation between their states survives each step when its
parameter is updated with what the first run did, it survives the runs. -/
theorem run_lockstep {A : Type*} {R : A → S → S → Prop} (update : A → I → S × O → A)
    (hstep : ∀ i a s₁ s₂ r₁ r₂, R a s₁ s₂ → step i s₁ = .ok r₁ → step i s₂ = .ok r₂ →
      R (update a i r₁) r₁.1 r₂.1)
    {is : List I} {s₁ s₂ : S} {rs₁ rs₂ : List (S × O)} {a : A} (hs : R a s₁ s₂)
    (h₁ : run step is s₁ = .ok rs₁) (h₂ : run step is s₂ = .ok rs₂) :
    R ((is.zip rs₁).foldl (fun a ir => update a ir.1 ir.2) a) (final s₁ rs₁) (final s₂ rs₂) := by
  induction is generalizing s₁ s₂ rs₁ rs₂ a with
  | nil =>
    cases h₁
    cases h₂
    exact hs
  | cons i is ih =>
    obtain ⟨r₁, rest₁, hr₁, hrest₁, rfl⟩ := run_cons_eq_ok.mp h₁
    obtain ⟨r₂, rest₂, hr₂, hrest₂, rfl⟩ := run_cons_eq_ok.mp h₂
    rw [final_cons, final_cons, List.zip_cons_cons, List.foldl_cons]
    exact ih (hstep i a s₁ s₂ r₁ r₂ hs hr₁ hr₂) hrest₁ hrest₂

end Machine
