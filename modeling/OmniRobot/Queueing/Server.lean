import Mathlib.Algebra.BigOperators.Group.Finset.Basic
import Mathlib.Algebra.Order.BigOperators.Group.Finset
import Mathlib.Algebra.Order.Sub.Basic

/-!
# A server with a constant rate

Work arrives in slots, and a server takes up to `c` of it in each. What it cannot take waits. The
amounts are those of any linearly ordered monoid with a truncated subtraction, such as the natural
numbers or the nonnegative reals.

## Main results

* `exists_busy_start`, `arrived_le`: the backlog is what has come since the start of a busy period,
  less what the server could take since;
* `forall_backlog_le_iff`: the backlog stays within a bound exactly when no block of slots brings
  more than the bound beyond the rate;
* `arrived_add_backlog_le`: a bounded backlog is a bounded delay.
-/

namespace Queueing

variable {G : Type*} [AddCommMonoid G]

/-- What arrives in the first `n` slots. -/
def arrived (a : ℕ → G) (n : ℕ) : G := ∑ k ∈ Finset.range n, a k

@[simp] theorem arrived_zero (a : ℕ → G) : arrived a 0 = 0 := Finset.sum_range_zero a

theorem arrived_succ (a : ℕ → G) (n : ℕ) : arrived a (n + 1) = arrived a n + a n :=
  Finset.sum_range_succ a n

/-- What waits after `n` slots. -/
def backlog [Sub G] (c : G) (a : ℕ → G) : ℕ → G
  | 0 => 0
  | n + 1 => backlog c a n + a n - c

variable [LinearOrder G] [IsOrderedCancelAddMonoid G] [CanonicallyOrderedAdd G]

theorem arrived_mono (a : ℕ → G) : Monotone (arrived a) :=
  monotone_nat_of_le_succ fun n => (le_add_of_nonneg_right zero_le).trans_eq
    (arrived_succ a n).symm

variable [Sub G] [OrderedSub G] (c : G) (a : ℕ → G)

/-- The backlog is what has come since some slot, less what the server could take since then. -/
theorem exists_busy_start (n : ℕ) :
    ∃ j ≤ n, arrived a n = arrived a j + (n - j) • c + backlog c a n := by
  induction n with
  | zero => exact ⟨0, le_rfl, by simp [backlog]⟩
  | succ n ih =>
    rcases le_total (backlog c a n + a n) c with hidle | hbusy
    · -- the server takes all there is
      refine ⟨n + 1, le_rfl, ?_⟩
      rw [backlog, tsub_eq_zero_of_le hidle, Nat.sub_self, zero_nsmul, add_zero, add_zero]
    · -- the busy period goes on
      obtain ⟨j, hj, harrived⟩ := ih
      refine ⟨j, hj.trans (Nat.le_succ n), ?_⟩
      have hslots : (n + 1 - j) • c = (n - j) • c + c := by
        rw [Nat.sub_add_comm hj, succ_nsmul]
      calc arrived a (n + 1)
          = arrived a j + (n - j) • c + (backlog c a n + a n) := by
            rw [arrived_succ, harrived, add_assoc]
        _ = arrived a j + (n - j) • c + (c + backlog c a (n + 1)) := by
            rw [backlog, add_tsub_cancel_of_le hbusy]
        _ = arrived a j + (n + 1 - j) • c + backlog c a (n + 1) := by
            rw [hslots, ← add_assoc, ← add_assoc]

/-- No block of slots brings more than the server could take in it and what waits after it. -/
theorem arrived_le {j n : ℕ} (hjn : j ≤ n) :
    arrived a n ≤ arrived a j + (n - j) • c + backlog c a n := by
  induction n, hjn using Nat.le_induction with
  | base =>
    rw [Nat.sub_self, zero_nsmul, add_zero]
    exact le_add_of_nonneg_right zero_le
  | succ n hjn ih =>
    have hslots : (n + 1 - j) • c = (n - j) • c + c := by
      rw [Nat.sub_add_comm hjn, succ_nsmul]
    calc arrived a (n + 1)
        ≤ arrived a j + (n - j) • c + backlog c a n + a n := by
          rw [arrived_succ]
          exact add_le_add_left ih _
      _ ≤ arrived a j + (n - j) • c + (c + backlog c a (n + 1)) := by
          rw [add_assoc _ (backlog c a n)]
          exact add_le_add_right le_add_tsub _
      _ = arrived a j + (n + 1 - j) • c + backlog c a (n + 1) := by
          rw [hslots, ← add_assoc, ← add_assoc]

/-- The backlog stays within `b` exactly when no block of slots brings more than `b` beyond the
rate. -/
theorem forall_backlog_le_iff {b : G} {N : ℕ} :
    (∀ n ≤ N, backlog c a n ≤ b) ↔
      ∀ j n, j ≤ n → n ≤ N → arrived a n ≤ arrived a j + (n - j) • c + b := by
  constructor
  · intro h j n hjn hn
    exact (arrived_le c a hjn).trans (add_le_add_right (h n hn) _)
  · intro h n hn
    obtain ⟨j, hjn, harrived⟩ := exists_busy_start c a n
    have hle := h j n hjn hn
    rw [harrived] at hle
    exact le_of_add_le_add_left hle

/-- What waits has come in the last `d` slots, if `d` slots suffice for the largest backlog. -/
theorem arrived_add_backlog_le {b : G} {N d : ℕ} (hd : b ≤ d • c)
    (h : ∀ n ≤ N, backlog c a n ≤ b) {n : ℕ} (hn : n ≤ N) :
    arrived a (n - d) + backlog c a n ≤ arrived a n := by
  obtain ⟨j, hjn, harrived⟩ := exists_busy_start c a n
  rw [harrived]
  refine add_le_add_left ?_ _
  rcases le_or_gt (n - d) j with hlate | hearly
  · exact (arrived_mono a hlate).trans (le_add_of_nonneg_right zero_le)
  · -- the busy period began before, and the server has caught up with the backlog since
    have hslots : (n - d - j) • c + d • c ≤ (n - j) • c := by
      rw [← add_nsmul]
      exact nsmul_le_nsmul_left zero_le (by omega)
    calc arrived a (n - d)
        ≤ arrived a j + (n - d - j) • c + b :=
          (forall_backlog_le_iff c a).mp h j (n - d) hearly.le (by omega)
      _ ≤ arrived a j + ((n - d - j) • c + d • c) := by
          rw [← add_assoc]
          exact add_le_add_right hd _
      _ ≤ arrived a j + (n - j) • c := add_le_add_right hslots _

end Queueing
