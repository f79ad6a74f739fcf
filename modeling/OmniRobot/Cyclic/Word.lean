import Mathlib.Algebra.Polynomial.RingDivision
import Mathlib.Data.List.GetD

/-!
# Words and the generator of a cyclic code

A word over a commutative ring is the list of the coefficients of a polynomial, the first letter
at the highest power. The words that a generator polynomial divides are the code words, so an error
goes unnoticed exactly if the generator divides it.

## Main results

* `poly_append`, `coeff_poly`: the polynomial of a word;
* `dvd_of_dvd_X_pow_mul`: a generator with a constant term divides no more after a shift;
* `not_dvd_of_burst`: such a generator divides no error that fits in as many consecutive letters as
  its degree;
* `not_dvd_of_sum_ne_zero`: a generator with root 1 divides no error whose letters do not sum to 0.
-/

namespace Cyclic

open Polynomial

section

variable {R : Type*} [CommRing R]

/-- The polynomial of a word, by Horner's rule. -/
noncomputable def poly (w : List R) : R[X] := w.foldl (fun p a => X * p + C a) 0

@[simp] theorem poly_nil : poly ([] : List R) = 0 := rfl

theorem poly_concat (w : List R) (a : R) : poly (w ++ [a]) = X * poly w + C a := by
  simp [poly]

theorem poly_append (v w : List R) : poly (v ++ w) = X ^ w.length * poly v + poly w := by
  induction w using List.reverseRecOn with
  | nil => simp
  | append_singleton w a ih =>
    rw [← List.append_assoc, poly_concat, ih, poly_concat, List.length_append,
      List.length_singleton]
    ring

/-- The letters are the coefficients, last letter first. -/
theorem coeff_poly (w : List R) (i : ℕ) : (poly w).coeff i = w.reverse.getD i 0 := by
  induction w using List.reverseRecOn generalizing i with
  | nil => simp
  | append_singleton w a ih =>
    rw [poly_concat, List.reverse_append]
    cases i with
    | zero => simp
    | succ i => simp [coeff_X_mul, ih]

theorem poly_eq_zero {w : List R} : poly w = 0 ↔ ∀ a ∈ w, a = 0 := by
  constructor
  · intro h a ha
    obtain ⟨i, hi, rfl⟩ := List.mem_iff_getElem.mp (List.mem_reverse.mpr ha)
    have hcoeff : (poly w).coeff i = 0 := by rw [h, coeff_zero]
    rwa [coeff_poly, List.getD_eq_getElem _ _ hi] at hcoeff
  · intro h
    ext i
    rw [coeff_poly, coeff_zero]
    by_cases hi : i < w.reverse.length
    · rw [List.getD_eq_getElem _ _ hi]
      exact h _ (List.mem_reverse.mp (List.getElem_mem hi))
    · exact List.getD_eq_default _ _ (not_lt.mp hi)

theorem degree_poly_lt (w : List R) : (poly w).degree < w.length := by
  rw [degree_lt_iff_coeff_zero]
  intro i hi
  exact (coeff_poly w i).trans (List.getD_eq_default _ _ (by rwa [List.length_reverse]))

theorem eval_one_poly (w : List R) : (poly w).eval 1 = w.sum := by
  induction w using List.reverseRecOn with
  | nil => simp
  | append_singleton w a ih => simp [poly_concat, ih]

/-! ### Errors that a generator does not divide -/

/-- The nonzero letters lie within `n` consecutive places. -/
def Burst (n : ℕ) (e : List R) : Prop :=
  ∃ k, ∀ i, ∀ hi : i < e.length, e[i] ≠ 0 → k ≤ i ∧ i < k + n

/-- A burst is up to `n` letters between zeros. -/
theorem Burst.exists_append {n : ℕ} {e : List R} (h : Burst n e) :
    ∃ u b v : List R, e = u ++ b ++ v ∧ b.length ≤ n ∧ (∀ a ∈ u, a = 0) ∧ ∀ a ∈ v, a = 0 := by
  obtain ⟨k, hk⟩ := h
  refine ⟨e.take k, (e.drop k).take n, (e.drop k).drop n, ?_, List.length_take_le _ _, ?_, ?_⟩
  · rw [List.append_assoc, List.take_append_drop, List.take_append_drop]
  · intro a ha
    obtain ⟨i, hi, rfl⟩ := List.mem_iff_getElem.mp ha
    rw [List.length_take] at hi
    rw [List.getElem_take]
    by_contra hne
    have hle := (hk i (by omega) hne).1
    omega
  · intro a ha
    rw [List.drop_drop] at ha
    obtain ⟨i, hi, rfl⟩ := List.mem_iff_getElem.mp ha
    rw [List.length_drop] at hi
    rw [List.getElem_drop]
    by_contra hne
    have hlt := (hk (k + n + i) (by omega) hne).2
    omega

/-- A generator with root 1 divides only words whose letters sum to 0. -/
theorem not_dvd_of_sum_ne_zero {g : R[X]} (hg : g.eval 1 = 0) {e : List R} (he : e.sum ≠ 0) :
    ¬ g ∣ poly e := by
  intro hdvd
  apply he
  rw [← eval_one_poly]
  exact eval_eq_zero_of_dvd_of_eval_eq_zero hdvd hg

end

section

variable {R : Type*} [CommRing R] [IsDomain R] {g : R[X]}

/-- A generator with a constant term has no factor in common with a power of `X`. -/
theorem dvd_of_dvd_X_pow_mul (hg : g.coeff 0 ≠ 0) {n : ℕ} {p : R[X]} (h : g ∣ X ^ n * p) :
    g ∣ p := by
  obtain ⟨q, hq⟩ := h
  have hX : ¬ X ∣ g := fun hdvd => hg (X_dvd_iff.mp hdvd)
  obtain ⟨r, rfl⟩ : X ^ n ∣ q := prime_X.pow_dvd_of_dvd_mul_left n hX (Dvd.intro p hq)
  refine ⟨r, mul_left_cancel₀ (pow_ne_zero n X_ne_zero) ?_⟩
  rw [hq]
  ring

/-- A generator with a constant term divides no burst no longer than its degree. -/
theorem not_dvd_of_burst (hg : g.coeff 0 ≠ 0) {n : ℕ} (hn : n ≤ g.degree) {e : List R}
    (he : Burst n e) (hne : ∃ a ∈ e, a ≠ 0) : ¬ g ∣ poly e := by
  obtain ⟨u, b, v, rfl, hb, hu, hv⟩ := he.exists_append
  rw [poly_append, poly_append, poly_eq_zero.mpr hu, poly_eq_zero.mpr hv, mul_zero, zero_add,
    add_zero]
  intro hdvd
  have hsmall : (poly b).degree < g.degree :=
    (degree_poly_lt b).trans_le ((by exact_mod_cast hb : (b.length : WithBot ℕ) ≤ n).trans hn)
  -- so the letters between the zeros are zero as well
  have hzero : poly b = 0 := eq_zero_of_dvd_of_degree_lt (dvd_of_dvd_X_pow_mul hg hdvd) hsmall
  obtain ⟨a, ha, hane⟩ := hne
  rw [List.mem_append, List.mem_append] at ha
  rcases ha with (ha | ha) | ha
  · exact hane (hu a ha)
  · exact hane (poly_eq_zero.mp hzero a ha)
  · exact hane (hv a ha)

end

end Cyclic
