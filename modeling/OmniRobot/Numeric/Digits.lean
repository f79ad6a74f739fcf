import Mathlib.Data.Nat.Digits.Lemmas

/-!
# Digits in two bases

A number below `b ^ n = c ^ m` has `n` digits in base `b` and `m` digits in base `c`, least
significant first. `regroup` goes from the former to the latter, as a packed record does when it is
read byte by byte, or its bytes field by field.

## Main results

* `isDigits_regroup`: the digits are in range;
* `regroup_regroup`: regrouping back gives the digits one started from.
-/

namespace Digits

variable {b c n m : ℕ} {l : List ℕ}

/-- `n` digits in base `b`. -/
def IsDigits (b n : ℕ) (l : List ℕ) : Prop := l.length = n ∧ ∀ x ∈ l, x < b

instance (b n : ℕ) (l : List ℕ) : Decidable (IsDigits b n l) := inferInstanceAs (Decidable (_ ∧ _))

/-- The `m` lowest digits in base `c` of the number with digits `l` in base `b`. -/
def regroup (b c m : ℕ) (l : List ℕ) : List ℕ :=
  (List.range m).map fun i => Nat.ofDigits b l / c ^ i % c

@[simp] theorem length_regroup (b c m : ℕ) (l : List ℕ) : (regroup b c m l).length = m := by
  simp [regroup]

theorem isDigits_regroup (hc : 0 < c) : IsDigits c m (regroup b c m l) := by
  refine ⟨length_regroup b c m l, fun x hx => ?_⟩
  obtain ⟨i, -, rfl⟩ := List.mem_map.mp hx
  exact Nat.mod_lt _ hc

/-- The digits denote the number, as far as they go. -/
theorem ofDigits_regroup (b c m : ℕ) (l : List ℕ) :
    Nat.ofDigits c (regroup b c m l) = Nat.ofDigits b l % c ^ m := by
  induction m with
  | zero => rw [pow_zero, Nat.mod_one]; rfl
  | succ m ih =>
    have htop : regroup b c (m + 1) l = regroup b c m l ++ [Nat.ofDigits b l / c ^ m % c] := by
      simp [regroup, List.range_succ]
    rw [htop, Nat.ofDigits_append, ih, length_regroup, Nat.ofDigits_singleton, Nat.mod_pow_succ]

/-- Regrouping back gives the digits one started from. -/
theorem regroup_regroup (hb : 1 < b) (hpow : b ^ n = c ^ m) (hl : IsDigits b n l) :
    regroup c b n (regroup b c m l) = l := by
  obtain ⟨hlen, hlt⟩ := hl
  have hx : Nat.ofDigits b l < b ^ n := hlen ▸ Nat.ofDigits_lt_base_pow_length hb hlt
  -- both have `n` digits in base `b` and denote the same number
  refine Nat.ofDigits_inj_of_len_eq hb ((length_regroup c b n _).trans hlen.symm)
    (isDigits_regroup (by omega)).2 hlt ?_
  rw [ofDigits_regroup, ofDigits_regroup, ← hpow, Nat.mod_mod, Nat.mod_eq_of_lt hx]

end Digits
