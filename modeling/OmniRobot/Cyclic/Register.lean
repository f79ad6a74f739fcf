import Mathlib.Algebra.Field.ZMod
import OmniRobot.Cyclic.Word

/-!
# The shift register of a cyclic code

A register of `n` bits that shifts left and, when a one falls out, adds its feedback. It multiplies
by `X` modulo the generator `X ^ n` plus the feedback, so that a message shifted through it leaves
the remainder of `X ^ n` times the message. Everything else follows from that, for any width and
feedback: linearity, the check of a message with its checksum appended, and which errors the check
notices.

## Main results

* `poly_checksum`: the checksum is the remainder;
* `checksum_xor`: checksums are linear;
* `checksum_concat_eq_zero`: a message with its checksum appended, and with no other word, has
  checksum 0;
* `checksum_xor_ne_zero_of_burst`, `checksum_xor_ne_zero_of_odd`: the errors noticed.
-/

namespace Cyclic

open Polynomial

/-- A bit as an element of the field of two elements. -/
def letter (b : Bool) : ZMod 2 := if b then 1 else 0

variable {n : ℕ}

/-- The bits of a register, most significant bit first. -/
def bits (x : BitVec n) : List (ZMod 2) :=
  ((List.range n).map fun i => letter (x.getLsbD i)).reverse

example : bits 0xD5#8 = [1, 1, 0, 1, 0, 1, 0, 1] := by decide

/-- The bits of a message. -/
def word (l : List (BitVec n)) : List (ZMod 2) := l.flatMap bits

/-- In the field of two elements a sum counts ones. -/
theorem sum_eq_count (w : List (ZMod 2)) : w.sum = w.count 1 := by
  induction w with
  | nil => rfl
  | cons a w ih =>
    rw [List.sum_cons, ih, List.count_cons, Nat.cast_add, add_comm]
    congr 1
    revert a
    decide

/-! ### Polynomials of registers -/

@[simp] theorem length_bits (x : BitVec n) : (bits x).length = n := by simp [bits]

theorem coeff_poly_bits (x : BitVec n) (i : ℕ) :
    (poly (bits x)).coeff i = letter (x.getLsbD i) := by
  rw [coeff_poly, bits, List.reverse_reverse]
  by_cases hi : i < n
  · rw [List.getD_eq_getElem _ _ (by simpa using hi)]
    simp
  · rw [List.getD_eq_default _ _ (by simpa using hi), x.getLsbD_of_ge i (not_lt.mp hi)]
    rfl

theorem poly_bits_inj {x y : BitVec n} : poly (bits x) = poly (bits y) ↔ x = y := by
  refine ⟨fun h => BitVec.eq_of_getLsbD_eq fun i _ => ?_, fun h => by rw [h]⟩
  have hcoeff : letter (x.getLsbD i) = letter (y.getLsbD i) := by
    rw [← coeff_poly_bits, ← coeff_poly_bits, h]
  revert hcoeff
  cases x.getLsbD i <;> cases y.getLsbD i <;> decide

@[simp] theorem poly_bits_zero : poly (bits 0#n) = 0 := by
  ext i
  simp [coeff_poly_bits, letter]

theorem poly_bits_eq_zero {x : BitVec n} : poly (bits x) = 0 ↔ x = 0#n := by
  rw [← poly_bits_zero (n := n), poly_bits_inj]

theorem poly_bits_xor (x y : BitVec n) :
    poly (bits (x ^^^ y)) = poly (bits x) + poly (bits y) := by
  ext i
  rw [coeff_add, coeff_poly_bits, coeff_poly_bits, coeff_poly_bits, BitVec.getLsbD_xor]
  cases x.getLsbD i <;> cases y.getLsbD i <;> decide

@[simp] theorem length_word (l : List (BitVec n)) : (word l).length = l.length * n := by
  simp [word]

theorem poly_word_xor {l m : List (BitVec n)} (h : l.length = m.length) :
    poly (word (List.zipWith (· ^^^ ·) l m)) = poly (word l) + poly (word m) := by
  induction l generalizing m with
  | nil =>
    obtain rfl := List.eq_nil_of_length_eq_zero h.symm
    simp [word]
  | cons x l ih =>
    obtain ⟨y, m, rfl⟩ := List.exists_cons_of_length_eq_add_one h.symm
    have hlen : l.length = m.length := Nat.succ.inj h
    have hword : ∀ (x : BitVec n) l, word (x :: l) = bits x ++ word l := fun _ _ => rfl
    rw [List.zipWith_cons_cons, hword, hword, hword, poly_append, poly_append, poly_append, ih hlen,
      poly_bits_xor, length_word, length_word, length_word, List.length_zipWith, ← hlen, min_self]
    ring

/-! ### The generator -/

/-- The generator of a register with feedback `g`. -/
noncomputable def generator (g : BitVec n) : (ZMod 2)[X] := X ^ n + poly (bits g)

theorem degree_poly_bits_lt (x : BitVec n) : (poly (bits x)).degree < n := by
  simpa using degree_poly_lt (bits x)

theorem monic_generator (g : BitVec n) : (generator g).Monic :=
  monic_X_pow_add (degree_poly_bits_lt g)

theorem degree_generator (g : BitVec n) : (generator g).degree = n := by
  have hlt : (poly (bits g)).degree < (X ^ n : (ZMod 2)[X]).degree := by
    rw [degree_X_pow]
    exact degree_poly_bits_lt g
  rw [generator, degree_add_eq_left_of_degree_lt hlt, degree_X_pow]

/-- The bits of a register are their own remainder. -/
theorem poly_bits_modByMonic (g x : BitVec n) : poly (bits x) %ₘ generator g = poly (bits x) := by
  rw [modByMonic_eq_self_iff (monic_generator g), degree_generator]
  exact degree_poly_bits_lt x

/-- With a one as its lowest bit, the feedback gives the generator a constant term. -/
theorem coeff_zero_generator {g : BitVec n} (hg : g.getLsbD 0 = true) :
    (generator g).coeff 0 ≠ 0 := by
  have hn : n ≠ 0 := by
    rintro rfl
    simp at hg
  rw [generator, coeff_add, coeff_poly_bits, coeff_X_pow, if_neg hn.symm, hg]
  decide

theorem eval_one_generator (g : BitVec n) : (generator g).eval 1 = 1 + (bits g).sum := by
  rw [generator, eval_add, eval_pow, eval_X, one_pow, eval_one_poly]

/-! ### The register -/

/-- One shift of the register. -/
def shift (g x : BitVec n) : BitVec n := if x.msb then (x <<< 1) ^^^ g else x <<< 1

/-- A letter of the message is added and shifted through. -/
def absorb (g x a : BitVec n) : BitVec n := (shift g)^[n] (x ^^^ a)

/-- The register after a message. -/
def checksum (g : BitVec n) (l : List (BitVec n)) : BitVec n := l.foldl (absorb g) 0#n

theorem checksum_concat (g : BitVec n) (l : List (BitVec n)) (a : BitVec n) :
    checksum g (l ++ [a]) = absorb g (checksum g l) a := by
  simp [checksum]

/-- The bit that falls out stands for `X ^ n`. -/
theorem X_mul_poly_bits (x : BitVec n) :
    X * poly (bits x) = poly (bits (x <<< 1)) + C (letter x.msb) * X ^ n := by
  ext i
  rw [coeff_add, coeff_poly_bits, BitVec.getLsbD_shiftLeft, coeff_C_mul_X_pow,
    BitVec.msb_eq_getLsbD_last]
  cases i with
  | zero =>
    rw [coeff_X_mul_zero]
    split_ifs with hn
    · simp [← hn, letter]
    · simp [letter]
  | succ i =>
    rw [coeff_X_mul, coeff_poly_bits]
    rcases lt_trichotomy (i + 1) n with hlt | rfl | hgt
    · simp [hlt, hlt.ne]
    · simp [letter]
    · simp [hgt.ne', show ¬ i + 1 < n by omega, x.getLsbD_of_ge i (by omega), letter]

/-- A shift multiplies by `X` modulo the generator. -/
theorem poly_shift (g x : BitVec n) :
    poly (bits (shift g x)) = (X * poly (bits x)) %ₘ generator g := by
  have hdvd : generator g ∣ poly (bits (shift g x)) - X * poly (bits x) := by
    rw [X_mul_poly_bits, shift]
    split
    next hmsb =>
      -- the feedback makes up for the lost `X ^ n`
      have hdiff : poly (bits (x <<< 1 ^^^ g)) -
          (poly (bits (x <<< 1)) + C (letter x.msb) * X ^ n) = generator g - 2 * X ^ n := by
        rw [poly_bits_xor, hmsb, generator, letter, if_pos rfl, C_1]
        ring
      have htwo : (2 : (ZMod 2)[X]) = 0 := CharTwo.two_eq_zero
      rw [hdiff, htwo, zero_mul, sub_zero]
    next hmsb =>
      rw [Bool.not_eq_true] at hmsb
      simp [hmsb, letter]
  rw [← modByMonic_eq_of_dvd_sub (monic_generator g) hdvd, poly_bits_modByMonic]

theorem mul_modByMonic_modByMonic (p q r : (ZMod 2)[X]) (hr : r.Monic) :
    (p * (q %ₘ r)) %ₘ r = (p * q) %ₘ r := by
  apply modByMonic_eq_of_dvd_sub hr
  rw [← mul_sub]
  exact (dvd_modByMonic_sub q r).mul_left p

theorem poly_iterate_shift (g x : BitVec n) (k : ℕ) :
    poly (bits ((shift g)^[k] x)) = (X ^ k * poly (bits x)) %ₘ generator g := by
  induction k with
  | zero => rw [Function.iterate_zero_apply, pow_zero, one_mul, poly_bits_modByMonic]
  | succ k ih =>
    rw [Function.iterate_succ_apply', poly_shift, ih,
      mul_modByMonic_modByMonic _ _ _ (monic_generator g), pow_succ', mul_assoc]

/-- The checksum of a message is the remainder of `X ^ n` times the message. -/
theorem poly_checksum (g : BitVec n) (l : List (BitVec n)) :
    poly (bits (checksum g l)) = (X ^ n * poly (word l)) %ₘ generator g := by
  induction l using List.reverseRecOn with
  | nil => simp [checksum, word]
  | append_singleton l a ih =>
    have hword : word (l ++ [a]) = word l ++ bits a := by simp [word]
    rw [checksum_concat, absorb, poly_iterate_shift, poly_bits_xor, ih, hword, poly_append,
      length_bits, mul_add, mul_add, add_modByMonic, add_modByMonic,
      mul_modByMonic_modByMonic _ _ _ (monic_generator g)]

/-! ### What the checksum tells -/

/-- Checksums are linear. -/
theorem checksum_xor (g : BitVec n) {l m : List (BitVec n)} (h : l.length = m.length) :
    checksum g (List.zipWith (· ^^^ ·) l m) = checksum g l ^^^ checksum g m := by
  rw [← poly_bits_inj, poly_bits_xor, poly_checksum, poly_checksum, poly_checksum, poly_word_xor h,
    mul_add, add_modByMonic]

section

variable {g : BitVec n} (hg : g.getLsbD 0 = true)

include hg

/-- No shift empties a register that is not empty. -/
theorem iterate_shift_eq_zero {x : BitVec n} {k : ℕ} : (shift g)^[k] x = 0#n ↔ x = 0#n := by
  rw [← poly_bits_eq_zero, poly_iterate_shift, modByMonic_eq_zero_iff_dvd (monic_generator g),
    ← poly_bits_eq_zero]
  constructor
  · intro hdvd
    exact eq_zero_of_dvd_of_degree_lt (dvd_of_dvd_X_pow_mul (coeff_zero_generator hg) hdvd)
      ((degree_poly_bits_lt x).trans_eq (degree_generator g).symm)
  · intro hzero
    rw [hzero, mul_zero]
    exact dvd_zero _

/-- A message has checksum 0 with its own checksum appended, and with no other letter. -/
theorem checksum_concat_eq_zero {l : List (BitVec n)} {c : BitVec n} :
    checksum g (l ++ [c]) = 0#n ↔ c = checksum g l := by
  rw [checksum_concat, absorb, iterate_shift_eq_zero hg, eq_comm (a := c)]
  exact BitVec.xor_eq_zero_iff

/-- The messages with checksum 0 are the code words. -/
theorem checksum_eq_zero {l : List (BitVec n)} :
    checksum g l = 0#n ↔ generator g ∣ poly (word l) := by
  rw [← poly_bits_eq_zero, poly_checksum, modByMonic_eq_zero_iff_dvd (monic_generator g)]
  exact ⟨dvd_of_dvd_X_pow_mul (coeff_zero_generator hg), fun h => h.mul_left _⟩

/-- An error that is no code word is noticed. -/
theorem checksum_xor_ne_zero {l e : List (BitVec n)} (hlen : l.length = e.length)
    (hl : checksum g l = 0#n) (he : ¬ generator g ∣ poly (word e)) :
    checksum g (List.zipWith (· ^^^ ·) l e) ≠ 0#n := by
  rw [checksum_xor g hlen, hl, BitVec.zero_xor]
  exact fun h => he ((checksum_eq_zero hg).mp h)

/-- Every error within `n` consecutive bits is noticed. -/
theorem checksum_xor_ne_zero_of_burst {l e : List (BitVec n)} (hlen : l.length = e.length)
    (hl : checksum g l = 0#n) (hne : ∃ a ∈ e, a ≠ 0#n) (he : Burst n (word e)) :
    checksum g (List.zipWith (· ^^^ ·) l e) ≠ 0#n := by
  apply checksum_xor_ne_zero hg hlen hl
  apply not_dvd_of_burst (coeff_zero_generator hg) (degree_generator g).ge he
  -- a letter that is not 0 has a bit that is not 0
  obtain ⟨a, ha, hane⟩ := hne
  by_contra! hzero
  apply hane
  rw [← poly_bits_eq_zero, poly_eq_zero]
  exact fun b hb => hzero b (List.mem_flatMap_of_mem ha hb)

/-- If an odd number of feedback bits are ones, every error of an odd number of bits is noticed. -/
theorem checksum_xor_ne_zero_of_odd (hsum : (bits g).sum = 1) {l e : List (BitVec n)}
    (hlen : l.length = e.length) (hl : checksum g l = 0#n) (he : Odd ((word e).count 1)) :
    checksum g (List.zipWith (· ^^^ ·) l e) ≠ 0#n := by
  apply checksum_xor_ne_zero hg hlen hl
  have hroot : (generator g).eval 1 = 0 := by
    rw [eval_one_generator, hsum]
    rfl
  apply not_dvd_of_sum_ne_zero hroot
  rw [sum_eq_count, ZMod.natCast_ne_zero_iff_odd]
  exact he

end

end Cyclic
