import Mathlib.Algebra.Group.Nat.Defs
import Mathlib.Order.Monotone.Basic
import OmniRobot.Machine.Run

/-!
# Clocks that wrap, and periodic tasks

A 32-bit clock shows the time modulo `2 ^ 32`. The difference of two readings is the time between
them as long as that is less than a whole turn of the clock. So a task that is polled now and then,
and runs when its period has passed since it last ran, may keep the reading of its last run in place
of the time, if the polls are not too far apart.

## Main results

* `toNat_reading_sub`: the difference of two readings;
* `period_le_reading_iff`: the test of a polled task on readings agrees with the one on times;
* `sub_lastRun_succ_lt`, `exists_lastRun`: at every poll the last run is less than a period ago.
-/

namespace Timing

/-- What a 32-bit clock shows at the time `t`. -/
def reading (t : ℕ) : UInt32 := UInt32.ofNat t

theorem toNat_reading (t : ℕ) : (reading t).toNat = t % 2 ^ 32 := UInt32.toNat_ofNat'

/-- The time between two readings, if it is less than a turn of the clock. -/
theorem toNat_reading_sub {s t : ℕ} (hst : s ≤ t) (h : t - s < 2 ^ 32) :
    (reading t - reading s).toNat = t - s := by
  rw [UInt32.toNat_sub, toNat_reading, toNat_reading]
  omega

/-! ### Polled tasks -/

variable (period : ℕ) (T : ℕ → ℕ)

/-- When a task last ran before the poll `n`, if it runs at every poll by which its period has
passed since; 0 if it has not run yet. -/
def lastRun : ℕ → ℕ
  | 0 => 0
  | n + 1 => if period ≤ T n - lastRun n then T n else lastRun n

/-- The task runs at the poll `n`. -/
def RunsAt (n : ℕ) : Prop := period ≤ T n - lastRun period T n

instance (n : ℕ) : Decidable (RunsAt period T n) := Nat.decLe _ _

theorem lastRun_succ (n : ℕ) :
    lastRun period T (n + 1) = if RunsAt period T n then T n else lastRun period T n := rfl

/-- The times of the polls, in order and so close that the clock cannot make a turn unnoticed. -/
structure Polls : Prop where
  first_lt : T 0 < 2 ^ 32
  le_succ : ∀ n, T n ≤ T (n + 1)
  gap_le : ∀ n, T (n + 1) - T n + period ≤ 2 ^ 32

variable {period T}

theorem Polls.mono (h : Polls period T) : Monotone T := monotone_nat_of_le_succ h.le_succ

theorem lastRun_le (h : Polls period T) (n : ℕ) : lastRun period T n ≤ T n := by
  induction n with
  | zero => exact Nat.zero_le _
  | succ n ih =>
    rw [lastRun_succ]
    split_ifs
    · exact h.le_succ n
    · exact ih.trans (h.le_succ n)

/-- After a poll the last run is less than a period ago. -/
theorem sub_lastRun_succ_lt (hpos : 0 < period) (n : ℕ) :
    T n - lastRun period T (n + 1) < period := by
  rw [lastRun_succ]
  split_ifs with hruns
  · rwa [Nat.sub_self]
  · exact Nat.lt_of_not_le hruns

/-- So the clock cannot make a turn before the next one. -/
theorem sub_lastRun_lt (h : Polls period T) (hpos : 0 < period) (n : ℕ) :
    T n - lastRun period T n < 2 ^ 32 := by
  cases n with
  | zero => exact h.first_lt
  | succ n =>
    have hlast := sub_lastRun_succ_lt (T := T) hpos n
    have hgap := h.gap_le n
    have hmono := h.le_succ n
    omega

/-- The test on readings agrees with the test on times. -/
theorem period_le_reading_iff (h : Polls period T) (hpos : 0 < period) {p : UInt32}
    (hp : p.toNat = period) (n : ℕ) :
    p ≤ reading (T n) - reading (lastRun period T n) ↔ RunsAt period T n := by
  rw [UInt32.le_iff_toNat_le, hp, toNat_reading_sub (lastRun_le h n) (sub_lastRun_lt h hpos n),
    RunsAt]

/-- A register that keeps the reading of the last run. -/
theorem reading_lastRun_succ (h : Polls period T) (hpos : 0 < period) {p : UInt32}
    (hp : p.toNat = period) (n : ℕ) :
    (if p ≤ reading (T n) - reading (lastRun period T n) then reading (T n)
      else reading (lastRun period T n)) = reading (lastRun period T (n + 1)) := by
  rw [lastRun_succ]
  by_cases hruns : RunsAt period T n
  · rw [if_pos hruns, if_pos ((period_le_reading_iff h hpos hp n).mpr hruns)]
  · rw [if_neg hruns, if_neg (mt (period_le_reading_iff h hpos hp n).mp hruns)]

/-- The last run was at one of the polls, if there was one. -/
theorem exists_lastRun (period : ℕ) (T : ℕ → ℕ) (n : ℕ) :
    ((∀ j < n, ¬ RunsAt period T j) ∧ lastRun period T n = 0) ∨
      ∃ j < n, RunsAt period T j ∧ (∀ l, j < l → l < n → ¬ RunsAt period T l) ∧
        lastRun period T n = T j := by
  have hkeep : ∀ k < n, ¬ RunsAt period T k → lastRun period T (k + 1) = lastRun period T k :=
    fun k _ hk => if_neg hk
  rcases Machine.exists_last_write (lastRun period T) hkeep with
    ⟨hnone, hlast⟩ | ⟨j, hj, hruns, hnone, hlast⟩
  · exact .inl ⟨hnone, hlast⟩
  · exact .inr ⟨j, hj, hruns, hnone, hlast.trans (if_pos hruns)⟩

end Timing
