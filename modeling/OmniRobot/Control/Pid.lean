import Mathlib.Algebra.Order.Field.Basic
import Mathlib.Data.List.Basic
import Mathlib.Tactic.Linarith
import Mathlib.Tactic.Ring

/-!
# PID control with a bounded integral

A discrete PID controller remembers the sum of the errors, kept within a bound, and the last
error. Over any ordered field, this says how the memory and the demand follow from the errors, and
how much of an earlier memory later demands still depend on: the last error is forgotten after
one step, the sum only when it is reset. Both are bounded, and so is what they can add to the
proportional term.

## Main results

* `lastDemand_append_of_ne`: earlier errors count only through the memory they leave;
* `Memory.Agree.after`: any error at all makes the last errors agree;
* `Memory.Agree.lastDemand_eq`: equal sums give equal demands from the second error on;
* `Memory.Bounded.abs_demand_sub_le`: how far a bounded memory moves a demand.
-/

namespace Control

variable {F : Type*} [Field F] [LinearOrder F]

/-- The nearest number to `x` in `[-b, b]`. -/
def clampTo (b x : F) : F := max (-b) (min b x)

/-- The gains of a controller and the bound of its integral. -/
structure Gains (F : Type*) where
  kp : F
  ki : F
  kd : F
  bound : F

/-- What a controller remembers of earlier errors. -/
@[ext]
structure Memory (F : Type*) where
  integral : F
  prevErr : F

/-- The memory after one more error. -/
def Memory.update (g : Gains F) (m : Memory F) (err : F) : Memory F :=
  ⟨clampTo g.bound (m.integral + err), err⟩

/-- The demand for one more error. -/
def demand (g : Gains F) (m : Memory F) (err : F) : F :=
  g.kp * err + g.ki * (m.update g err).integral + g.kd * (err - m.prevErr)

/-- The memory after a list of errors. -/
def Memory.after (g : Gains F) (m : Memory F) (errs : List F) : Memory F :=
  errs.foldl (Memory.update g) m

/-- The demand for the last of a list of errors, `0` if there is none. -/
def lastDemand (g : Gains F) (m : Memory F) (errs : List F) : F :=
  match errs.getLast? with
  | some err => demand g (m.after g errs.dropLast) err
  | none => 0

variable (g : Gains F) (m : Memory F)

@[simp] theorem Memory.after_append (errs errs' : List F) :
    m.after g (errs ++ errs') = (m.after g errs).after g errs' := List.foldl_append

@[simp] theorem lastDemand_concat (errs : List F) (err : F) :
    lastDemand g m (errs ++ [err]) = demand g (m.after g errs) err := by
  simp [lastDemand]

/-- Earlier errors count for a demand only through the memory they leave. -/
theorem lastDemand_append_of_ne (errs : List F) {errs' : List F} (hne : errs' ≠ []) :
    lastDemand g m (errs ++ errs') = lastDemand g (m.after g errs) errs' := by
  rcases List.eq_nil_or_concat errs' with rfl | ⟨l, err, rfl⟩
  · exact absurd rfl hne
  · rw [List.concat_eq_append, ← List.append_assoc, lastDemand_concat, lastDemand_concat,
      Memory.after_append]

/-! ### What is forgotten -/

/-- Two memories, with flags for whether their integrals and their last errors may differ. -/
structure Memory.Agree (integral prevErr : Bool) (m m' : Memory F) : Prop where
  integral_eq : integral = false → m.integral = m'.integral
  prevErr_eq : prevErr = false → m.prevErr = m'.prevErr

section Agree

variable {g m} {m' : Memory F} {integral prevErr : Bool}

/-- One error replaces the last error. A different integral stays, as both get the same error
added. -/
theorem Memory.Agree.update (h : Memory.Agree integral prevErr m m') (err : F) :
    Memory.Agree integral false (m.update g err) (m'.update g err) := by
  refine ⟨fun hi => ?_, fun _ => rfl⟩
  rw [Memory.update, Memory.update, h.integral_eq hi]

/-- After any errors at all, the last errors agree. -/
theorem Memory.Agree.after (h : Memory.Agree integral prevErr m m') (errs : List F) :
    Memory.Agree integral (prevErr && errs.isEmpty) (m.after g errs) (m'.after g errs) := by
  induction errs generalizing m m' prevErr with
  | nil =>
    rw [List.isEmpty_nil, Bool.and_true]
    exact h
  | cons err errs ih =>
    have hrest := ih (h.update (g := g) err)
    rw [Bool.false_and] at hrest
    rw [List.isEmpty_cons, Bool.and_false]
    exact hrest

theorem Memory.Agree.demand_eq (h : Memory.Agree false false m m') (err : F) :
    demand g m err = demand g m' err := by
  rw [demand, demand, (h.update err).integral_eq rfl, h.prevErr_eq rfl]

/-- Equal integrals give equal demands from the second error on, and for a first error if the last
errors before it agree. -/
theorem Memory.Agree.lastDemand_eq (h : Memory.Agree false prevErr m m') {errs : List F}
    (hfirst : errs.length = 1 → prevErr = false) : lastDemand g m errs = lastDemand g m' errs := by
  rcases List.eq_nil_or_concat errs with rfl | ⟨errs, err, rfl⟩
  · rfl
  · rw [List.concat_eq_append] at hfirst ⊢
    have hflag : (prevErr && errs.isEmpty) = false := by
      cases errs with
      | nil => rw [hfirst rfl, Bool.false_and]
      | cons err errs => rw [List.isEmpty_cons, Bool.and_false]
    have hafter := h.after (g := g) errs
    rw [hflag] at hafter
    rw [lastDemand_concat, lastDemand_concat, hafter.demand_eq]

end Agree

/-! ### No error -/

section Zero

variable {g}

/-- Without an error there is nothing to remember. -/
theorem Memory.after_zero [IsStrictOrderedRing F] (hb : 0 ≤ g.bound) {errs : List F}
    (h : ∀ err ∈ errs, err = 0) : Memory.after g ⟨0, 0⟩ errs = ⟨0, 0⟩ := by
  induction errs with
  | nil => rfl
  | cons err errs ih =>
    rw [List.forall_mem_cons] at h
    have hstep : Memory.update g ⟨0, 0⟩ 0 = ⟨0, 0⟩ := by
      rw [Memory.update, clampTo, add_zero, min_eq_right hb, max_eq_right (by linarith)]
    rw [Memory.after, List.foldl_cons, h.1, hstep]
    exact ih h.2

/-- Without an error there is nothing to demand. -/
theorem lastDemand_zero [IsStrictOrderedRing F] (hb : 0 ≤ g.bound) {errs : List F}
    (h : ∀ err ∈ errs, err = 0) : lastDemand g ⟨0, 0⟩ errs = 0 := by
  rcases List.eq_nil_or_concat errs with rfl | ⟨errs, err, rfl⟩
  · rfl
  · rw [List.concat_eq_append, List.forall_mem_append, List.forall_mem_singleton] at h
    have hupdate : Memory.update g ⟨0, 0⟩ 0 = ⟨0, 0⟩ :=
      Memory.after_zero hb (List.forall_mem_singleton.mpr rfl)
    rw [List.concat_eq_append, lastDemand_concat, Memory.after_zero hb h.1, h.2, demand, hupdate]
    simp

end Zero

/-! ### What a memory can add -/

section Bounded

variable [IsStrictOrderedRing F] {g : Gains F} {m : Memory F} {e err : F}

theorem abs_clampTo_le {b : F} (hb : 0 ≤ b) (x : F) : |clampTo b x| ≤ b := by
  rw [abs_le, clampTo]
  exact ⟨le_max_left _ _, max_le (by linarith) (min_le_left _ _)⟩

/-- The integral is within the bound of the controller, the last error within `e`. -/
structure Memory.Bounded (g : Gains F) (e : F) (m : Memory F) : Prop where
  integral_le : |m.integral| ≤ g.bound
  prevErr_le : |m.prevErr| ≤ e

/-- An error within `e` leaves any memory bounded. -/
theorem Memory.bounded_update (hb : 0 ≤ g.bound) (herr : |err| ≤ e) :
    (m.update g err).Bounded g e := ⟨abs_clampTo_le hb _, herr⟩

/-- Errors within `e` keep a memory bounded. -/
theorem Memory.Bounded.after (h : m.Bounded g e) (hb : 0 ≤ g.bound) {errs : List F}
    (herrs : ∀ err ∈ errs, |err| ≤ e) : (m.after g errs).Bounded g e := by
  induction errs generalizing m with
  | nil => exact h
  | cons err errs ih =>
    rw [List.forall_mem_cons] at herrs
    exact ih (Memory.bounded_update hb herrs.1) herrs.2

/-- A bounded memory moves a demand by a bounded amount. -/
theorem Memory.Bounded.abs_demand_sub_le (h : m.Bounded g e) (hb : 0 ≤ g.bound)
    (hki : 0 ≤ g.ki) (hkd : 0 ≤ g.kd) :
    |demand g m err - (g.kp + g.kd) * err| ≤ g.ki * g.bound + g.kd * e := by
  have hsplit : demand g m err - (g.kp + g.kd) * err =
      g.ki * (m.update g err).integral - g.kd * m.prevErr := by
    rw [demand]
    ring
  have hint : |g.ki * (m.update g err).integral| ≤ g.ki * g.bound := by
    rw [abs_mul, abs_of_nonneg hki]
    exact mul_le_mul_of_nonneg_left (abs_clampTo_le hb _) hki
  have hprev : |g.kd * m.prevErr| ≤ g.kd * e := by
    rw [abs_mul, abs_of_nonneg hkd]
    exact mul_le_mul_of_nonneg_left h.prevErr_le hkd
  calc |demand g m err - (g.kp + g.kd) * err|
      = |g.ki * (m.update g err).integral - g.kd * m.prevErr| := by rw [hsplit]
    _ ≤ |g.ki * (m.update g err).integral| + |g.kd * m.prevErr| := abs_sub _ _
    _ ≤ g.ki * g.bound + g.kd * e := add_le_add hint hprev

end Bounded

end Control
