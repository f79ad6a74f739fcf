import Mathlib.Algebra.BigOperators.Intervals
import OmniRobot.Loop.Backlog
import OmniRobot.Timing.Clock

/-!
# The IMU monitor

`loop()` prints once a second how many ticks the IMU has processed and how long they took. It sums
the times between iterations that have processed a tick, in microseconds of a clock that wraps, and
the ticks of these iterations but the first, and starts over after each report. The sums telescope,
but for one gap: a reading of 0 stands for "no reading yet", so what follows an iteration in which
the clock shows 0 is lost.

## Main results

* `monitor_of_loop`: what one iteration does to the monitor;
* `measures_run`: the monitor of a run in terms of the time;
* `monitor_report`: what is printed.
-/

open Timing (reading RunsAt Polls)

/-! ### The code -/

/-- The first half of the monitor: the count. -/
def Monitor.count (ticks : ℕ) (nowUs : UInt32) (m : Monitor) : Monitor :=
  if 0 < ticks then
    { m with
      deltaSumUs :=
        if m.lastUs ≠ 0 then m.deltaSumUs + (nowUs - m.lastUs).toUInt64 else m.deltaSumUs
      tickSum := if m.lastUs ≠ 0 then m.tickSum + UInt32.ofNat ticks else m.tickSum
      lastUs := nowUs }
  else m

/-- The second half: after a report the sums start over. -/
theorem Monitor.update_eq (ticks : ℕ) (nowUs nowMs : UInt32) (m : Monitor) :
    m.update ticks nowUs nowMs =
      if 1000 ≤ nowMs - m.lastMs then
        { m.count ticks nowUs with lastMs := nowMs, deltaSumUs := 0, tickSum := 0 }
      else m.count ticks nowUs := by
  unfold Monitor.update Monitor.count
  dsimp only
  by_cases hticks : 0 < ticks
  · simp only [if_pos hticks]
    by_cases hlast : m.lastUs ≠ 0
    · simp only [if_pos hlast]
    · simp only [if_neg hlast]
  · simp only [if_neg hticks]

/-- What a report prints of the sums: the ticks, `avg_us` and `freq`. -/
def Monitor.report (F : Type) [Field F] [LinearOrder F] (m : Monitor) : UInt32 × F × F :=
  let avgUs : F := if m.tickSum ≠ 0 then (m.deltaSumUs.toNat : F) / (m.tickSum.toNat : F) else 0
  (m.tickSum, avgUs, if 0 < avgUs then ((1000000 : ℕ) : F) / avgUs else 0)

variable {F : Type} [Field F] [LinearOrder F] [IsStrictOrderedRing F] [FloorRing F]

/-- One iteration. -/
theorem monitor_of_loop {trig : Trig F} {i : Input} {s : LoopState F}
    {r : LoopState F × Observation} (h : loop trig i s = .ok r) :
    r.1.monitor =
      s.monitor.update (i.claim s.imu.imuTickPending).1.length i.nowUs i.nowMs := by
  have hticks : ∀ vrCmd, (imuUpdate vrCmd i.samples
      (onImuTimer^[i.ticks] (switchYawHold vrCmd s.imu))).1 =
        (i.claim s.imu.imuTickPending).1.length := by
    intro vrCmd
    have hpending : (switchYawHold vrCmd s.imu).imuTickPending = s.imu.imuTickPending := by
      unfold switchYawHold
      split_ifs <;> rfl
    rw [iterate_onImuTimer, hpending, Input.claim, List.length_map, List.length_range]
    rfl
  -- the RC stage leaves the IMU and the monitor alone
  obtain ⟨⟨s', decodes⟩, hreceive, hr⟩ : ∃ p, receive i (prepare i s) = .ok p ∧
      r.1.monitor = (steer i p.1).monitor := by
    cases hreceive : receive i (prepare i s) with
    | error e =>
      rw [loop, hreceive] at h
      cases h
    | ok p =>
      rw [loop, hreceive] at h
      cases h
      exact ⟨p, rfl, rfl⟩
  have hsame : s'.monitor = s.monitor ∧ s'.imu = s.imu := by
    unfold receive at hreceive
    split_ifs at hreceive
    · cases hreceive
      exact ⟨rfl, rfl⟩
    · cases hparse : Crsf.crsfParse rcInputMaxChannels i.serial.val (prepare i s).parser
        (prepare i s).rc with
      | error e =>
        rw [hparse] at hreceive
        cases hreceive
      | ok p =>
        rw [hparse] at hreceive
        cases hreceive
        exact ⟨rfl, rfl⟩
  obtain ⟨hmonitor, himu⟩ := hsame
  have hsteer : (steer i s').monitor = s'.monitor.update (imuUpdate s'.pilot.vrCmd i.samples
      (onImuTimer^[i.ticks] (switchYawHold s'.pilot.vrCmd s'.imu))).1 i.nowUs i.nowMs := by
    unfold steer lockHeadless
    dsimp only
    split_ifs <;> rfl
  rw [hr, hsteer, hmonitor, himu, hticks]

/-! ### Sums over a window -/

section

variable {U M n : ℕ → ℕ}

/-- The iterations `b` and `l` have processed ticks, and none has after `l` and before `k`. -/
structure Window (n : ℕ → ℕ) (b l k : ℕ) : Prop where
  le : b ≤ l
  lt : l < k
  first_pos : 0 < n b
  last_pos : 0 < n l
  idle : ∀ j, l < j → j < k → n j = 0

/-- With reports at the polls of `M`, the window that is open before the poll `k` starts at `b`: the
last iteration with ticks up to the last report, or the first of all. -/
structure OpensAt (M n : ℕ → ℕ) (k b : ℕ) : Prop where
  last_le : ∀ p < k, RunsAt 1000 M p → ∀ j ≤ p, 0 < n j → j ≤ b
  first_or : (∀ j < b, n j = 0) ∨ ∃ p < k, RunsAt 1000 M p ∧ b ≤ p

/-- The last iteration before `k` that has processed ticks; 0 if there is none. -/
def lastTicked (n : ℕ → ℕ) : ℕ → ℕ
  | 0 => 0
  | k + 1 => if 0 < n k then k else lastTicked n k

/-- The ticks after `b` that are not counted: those of an iteration whose last one with ticks has
read the clock at 0. -/
def lostTicks (U n : ℕ → ℕ) (b l : ℕ) : ℕ :=
  ∑ j ∈ Finset.Ioc b l, if reading (U (lastTicked n j)) = 0 then n j else 0

/-- The time before such an iteration, back to that reading. -/
def lostUs (U n : ℕ → ℕ) (b l : ℕ) : ℕ :=
  ∑ j ∈ Finset.Ioc b l,
    if 0 < n j ∧ reading (U (lastTicked n j)) = 0 then U j - U (lastTicked n j) else 0

/-- The sums of a window, with what they have lost: the time from `b` to `l`, and the ticks since
`b`. -/
structure Sums (U n : ℕ → ℕ) (b l : ℕ) (m : Monitor) : Prop where
  lastUs_eq : m.lastUs = reading (U l)
  deltaSumUs_eq : m.deltaSumUs + UInt64.ofNat (lostUs U n b l) = UInt64.ofNat (U l - U b)
  tickSum_eq : m.tickSum + UInt32.ofNat (lostTicks U n b l) =
    UInt32.ofNat (∑ j ∈ Finset.Ioc b l, n j)
  lostUs_le : lostUs U n b l ≤ U l - U b

/-- No tick has been processed, or the sums are those of the open window, at the poll `k` with `q`
reports decided. -/
def Measures (U M n : ℕ → ℕ) (q k : ℕ) (m : Monitor) : Prop :=
  ((∀ j < k, n j = 0) ∧ m.lastUs = 0 ∧ m.deltaSumUs = 0 ∧ m.tickSum = 0) ∨
    ∃ b l, Window n b l k ∧ OpensAt M n q b ∧ Sums U n b l m

theorem sums_self (l : ℕ) (lastMs : UInt32) : Sums U n l l ⟨lastMs, reading (U l), 0, 0⟩ := by
  have hlost : lostUs U n l l = 0 ∧ lostTicks U n l l = 0 := by
    rw [lostUs, lostTicks, Finset.Ioc_self, Finset.sum_empty, Finset.sum_empty]
    exact ⟨rfl, rfl⟩
  refine ⟨rfl, ?_, ?_, hlost.1.trans_le (Nat.zero_le _)⟩
  · rw [hlost.1, Nat.sub_self]
    rfl
  · rw [hlost.2, Finset.Ioc_self, Finset.sum_empty]
    rfl

theorem Window.lastTicked_eq {b l k : ℕ} (hw : Window n b l k) : lastTicked n k = l := by
  obtain ⟨-, hlt, -, hpos, hidle⟩ := hw
  induction k, Nat.succ_le_of_lt hlt using Nat.le_induction with
  | base => exact if_pos hpos
  | succ k hlk ih =>
    have hk : ¬ 0 < n k := (hidle k hlk (Nat.lt_succ_self k)).not_gt
    rw [lastTicked, if_neg hk]
    exact ih hlk fun j hj hj' => hidle j hj (Nat.lt_succ_of_lt hj')

/-- A sum over the iterations with ticks grows by that of the next one. -/
theorem Window.sum_Ioc {b l k : ℕ} (hw : Window n b l k) {f : ℕ → ℕ}
    (hf : ∀ j, n j = 0 → f j = 0) :
    ∑ j ∈ Finset.Ioc b k, f j = ∑ j ∈ Finset.Ioc b l, f j + f k := by
  have hidle : ∑ j ∈ Finset.Ioo l k, f j = 0 := Finset.sum_eq_zero fun j hj =>
    hf j (hw.idle j (Finset.mem_Ioo.mp hj).1 (Finset.mem_Ioo.mp hj).2)
  rw [← Finset.sum_Ioc_consecutive f hw.le hw.lt.le, ← Finset.Ioo_insert_right hw.lt,
    Finset.sum_insert Finset.right_notMem_Ioo, hidle, add_zero]

/-- The next iteration with ticks loses them if the clock has shown 0. -/
theorem Window.lostTicks_eq {b l k : ℕ} (hw : Window n b l k) :
    lostTicks U n b k = lostTicks U n b l + if reading (U l) = 0 then n k else 0 := by
  rw [lostTicks, hw.sum_Ioc (fun j hj => by rw [hj, ite_self]), hw.lastTicked_eq, lostTicks]

theorem Window.lostUs_eq {b l k : ℕ} (hw : Window n b l k) (hk : 0 < n k) :
    lostUs U n b k = lostUs U n b l + if reading (U l) = 0 then U k - U l else 0 := by
  rw [lostUs, hw.sum_Ioc (fun j hj => if_neg fun h => h.1.ne' hj), hw.lastTicked_eq, lostUs]
  simp only [hk, true_and]

/-- Another iteration with ticks extends the window. -/
theorem Sums.extend {b l k : ℕ} {m : Monitor} (h : Sums U n b l m) (hw : Window n b l k)
    (hU : Monotone U) (hk : 0 < n k) (hset : reading (U l) ≠ 0) (hgap : U k - U l < 2 ^ 32) :
    Sums U n b k ⟨m.lastMs, reading (U k),
      m.deltaSumUs + (reading (U k) - reading (U l)).toUInt64, m.tickSum + UInt32.ofNat (n k)⟩ := by
  have hbl := hU hw.le
  have hlk := hU hw.lt.le
  have hlostUs : lostUs U n b k = lostUs U n b l := by
    rw [hw.lostUs_eq hk, if_neg hset, add_zero]
  have hlostTicks : lostTicks U n b k = lostTicks U n b l := by
    rw [hw.lostTicks_eq, if_neg hset, add_zero]
  have hle := h.lostUs_le
  refine ⟨rfl, ?_, ?_, hlostUs.trans_le (by omega)⟩
  · -- the clock makes less than one turn, so the difference of its readings is the time
    have hstep : (reading (U k) - reading (U l)).toUInt64 = UInt64.ofNat (U k - U l) := by
      rw [← UInt64.toNat_inj, UInt32.toNat_toUInt64, Timing.toNat_reading_sub hlk hgap,
        UInt64.toNat_ofNat']
      omega
    change m.deltaSumUs + (reading (U k) - reading (U l)).toUInt64 + _ = _
    rw [hlostUs, hstep, UInt64.add_assoc, UInt64.add_comm (UInt64.ofNat (U k - U l)),
      ← UInt64.add_assoc, h.deltaSumUs_eq, ← UInt64.ofNat_add]
    congr 1
    omega
  · change m.tickSum + UInt32.ofNat (n k) + _ = _
    rw [hlostTicks, UInt32.add_assoc, UInt32.add_comm (UInt32.ofNat (n k)), ← UInt32.add_assoc,
      h.tickSum_eq, hw.sum_Ioc (fun _ hj => hj), UInt32.ofNat_add]

/-- After a reading of 0 it extends the window, too, but nothing is added. -/
theorem Sums.lose {b l k : ℕ} {m : Monitor} (h : Sums U n b l m) (hw : Window n b l k)
    (hU : Monotone U) (hk : 0 < n k) (hzero : reading (U l) = 0) :
    Sums U n b k ⟨m.lastMs, reading (U k), m.deltaSumUs, m.tickSum⟩ := by
  have hbl := hU hw.le
  have hlk := hU hw.lt.le
  have hlostUs : lostUs U n b k = lostUs U n b l + (U k - U l) := by
    rw [hw.lostUs_eq hk, if_pos hzero]
  have hlostTicks : lostTicks U n b k = lostTicks U n b l + n k := by
    rw [hw.lostTicks_eq, if_pos hzero]
  have hle := h.lostUs_le
  refine ⟨rfl, ?_, ?_, hlostUs.trans_le (by omega)⟩
  -- the sums stay, and what the window gains is lost
  · change m.deltaSumUs + _ = _
    rw [hlostUs, UInt64.ofNat_add, ← UInt64.add_assoc, h.deltaSumUs_eq, ← UInt64.ofNat_add]
    congr 1
    omega
  · change m.tickSum + _ = _
    rw [hlostTicks, UInt32.ofNat_add, ← UInt32.add_assoc, h.tickSum_eq, ← UInt32.ofNat_add,
      hw.sum_Ioc fun _ hj => hj]

/-- The count of one iteration. -/
theorem Measures.count {q k : ℕ} {m : Monitor} (h : Measures U M n q k m) (hq : q ≤ k)
    (hU : Monotone U)
    (hgap : ∀ l < k, 0 < n l → 0 < n k → (∀ j, l < j → j < k → n j = 0) → U k - U l < 2 ^ 32) :
    Measures U M n q (k + 1) (m.count (n k) (reading (U k))) := by
  unfold Monitor.count
  by_cases hk : 0 < n k
  · rw [if_pos hk]
    right
    rcases h with ⟨hnone, hlast, hdelta, htick⟩ | ⟨b, l, hw, hopen, hsums⟩
    · -- the first ticks: nothing to count them from
      rw [if_neg (not_not.mpr hlast), if_neg (not_not.mpr hlast), hdelta, htick]
      refine ⟨k, k, ⟨le_rfl, Nat.lt_succ_self k, hk, hk, fun j hj hj' => by omega⟩,
        ⟨fun p hp _ j hj _ => by omega, .inl hnone⟩, sums_self k m.lastMs⟩
    · refine ⟨b, k, ⟨hw.le.trans hw.lt.le, Nat.lt_succ_self k, hw.first_pos, hk,
        fun j hj hj' => by omega⟩, hopen, ?_⟩
      by_cases hset : reading (U l) = 0
      · have hlast : ¬ m.lastUs ≠ 0 := not_not.mpr (hsums.lastUs_eq.trans hset)
        rw [if_neg hlast, if_neg hlast]
        exact hsums.lose hw hU hk hset
      · have hlast : m.lastUs ≠ 0 := hsums.lastUs_eq.trans_ne hset
        rw [if_pos hlast, if_pos hlast, hsums.lastUs_eq]
        exact hsums.extend hw hU hk hset (hgap l hw.lt hw.last_pos hk hw.idle)
  · rw [if_neg hk]
    have hzero : n k = 0 := Nat.eq_zero_of_not_pos hk
    rcases h with ⟨hnone, hrest⟩ | ⟨b, l, hw, hopen, hsums⟩
    · refine .inl ⟨fun j hj => ?_, hrest⟩
      rcases Nat.lt_succ_iff_lt_or_eq.mp hj with hj | rfl
      exacts [hnone j hj, hzero]
    · refine .inr ⟨b, l, ⟨hw.le, Nat.lt_succ_of_lt hw.lt, hw.first_pos, hw.last_pos,
        fun j hj hj' => ?_⟩, hopen, hsums⟩
      rcases Nat.lt_succ_iff_lt_or_eq.mp hj' with hj' | rfl
      exacts [hw.idle j hj hj', hzero]

/-- A report opens a new window at the last iteration with ticks. -/
theorem Measures.restart {k : ℕ} {m : Monitor} (h : Measures U M n k (k + 1) m)
    (hreport : RunsAt 1000 M k) (lastMs : UInt32) :
    Measures U M n (k + 1) (k + 1) ⟨lastMs, m.lastUs, 0, 0⟩ := by
  rcases h with ⟨hnone, hlast, -⟩ | ⟨b, l, hw, -, hsums⟩
  · exact .inl ⟨hnone, hlast, rfl, rfl⟩
  · right
    rw [hsums.lastUs_eq]
    refine ⟨l, l, ⟨le_rfl, hw.lt, hw.last_pos, hw.last_pos, hw.idle⟩, ⟨fun p hp _ j hj hpos => ?_,
      .inr ⟨k, Nat.lt_succ_self k, hreport, Nat.le_of_lt_succ hw.lt⟩⟩, sums_self l lastMs⟩
    by_contra hlt
    have hidle := hw.idle j (Nat.lt_of_not_le hlt) (by omega)
    omega

/-- Without a report the window stays open. -/
theorem Measures.stay {k : ℕ} {m : Monitor} (h : Measures U M n k (k + 1) m)
    (hreport : ¬ RunsAt 1000 M k) : Measures U M n (k + 1) (k + 1) m := by
  rcases h with hnone | ⟨b, l, hw, hopen, hsums⟩
  · exact .inl hnone
  · refine .inr ⟨b, l, hw, ⟨fun p hp hp' => ?_, hopen.first_or.imp_right ?_⟩, hsums⟩
    · rcases Nat.lt_succ_iff_lt_or_eq.mp hp with hp | rfl
      exacts [hopen.last_le p hp hp', absurd hp' hreport]
    · rintro ⟨p, hp, hp', hb⟩
      exact ⟨p, Nat.lt_succ_of_lt hp, hp', hb⟩

end

/-! ### Runs -/

/-- The ticks processed in an iteration. -/
def ticksAt (inputs : List Input) (k : ℕ) : ℕ :=
  (inputs[k]?.map fun i => (i.claim (claimed (inputs.take k)).pending).1.length).getD 0

/-- The loop reads `micros()` at the times `U` and `millis()` at the times `M`. The first clock does
not make a whole turn between two iterations with ticks. -/
structure MonitorClocks (inputs : List Input) (U M : ℕ → ℕ) : Prop where
  us_eq : ∀ k i, inputs[k]? = some i → i.nowUs = reading (U k)
  ms_eq : ∀ k i, inputs[k]? = some i → i.nowMs = reading (M k)
  mono : Monotone U
  polls : Polls 1000 M
  gap_lt : ∀ l k, l < k → 0 < ticksAt inputs l → 0 < ticksAt inputs k →
    (∀ j, l < j → j < k → ticksAt inputs j = 0) → U k - U l < 2 ^ 32

section

variable {trig : Trig F} {gzOffset gDeadzone : F} {inputs : List Input} {U M : ℕ → ℕ}
  {rs : List (LoopState F × Observation)}

/-- What is counted in an iteration. -/
theorem MonitorClocks.count (hclocks : MonitorClocks inputs U M) {k : ℕ} {i : Input}
    (hi : inputs[k]? = some i) {m : Monitor} (h : Measures U M (ticksAt inputs) k k m) :
    Measures U M (ticksAt inputs) k (k + 1) (m.count (ticksAt inputs k) i.nowUs) := by
  rw [hclocks.us_eq k i hi]
  exact h.count le_rfl hclocks.mono fun l hl hpos hpos' => hclocks.gap_lt l k hl hpos hpos'

/-- The monitor of a run. -/
theorem measures_run (hclocks : MonitorClocks inputs U M)
    (h : runLoop trig inputs (.init gzOffset gDeadzone) = .ok rs) {k : ℕ}
    (hk : k ≤ inputs.length) :
    (Machine.final (.init gzOffset gDeadzone) (rs.take k)).monitor.lastMs =
        reading (Timing.lastRun 1000 M k) ∧
      Measures U M (ticksAt inputs) k k
        (Machine.final (.init gzOffset gDeadzone) (rs.take k)).monitor := by
  have hstep : ∀ k i s r, inputs[k]? = some i → (LoopState.Ok s ∧
      FollowsClaims gzOffset gDeadzone (claimed (inputs.take k)) s.imu ∧
      s.monitor.lastMs = reading (Timing.lastRun 1000 M k) ∧
      Measures U M (ticksAt inputs) k k s.monitor) → loop trig i s = .ok r →
      r.1.Ok ∧ FollowsClaims gzOffset gDeadzone (claimed (inputs.take (k + 1))) r.1.imu ∧
        r.1.monitor.lastMs = reading (Timing.lastRun 1000 M (k + 1)) ∧
        Measures U M (ticksAt inputs) (k + 1) (k + 1) r.1.monitor := by
    rintro k i s r hi ⟨hok, hfollows, hlast, hmeasures⟩ hr
    have hiter := iterates_of_loop hok hr
    have hticks : (i.claim s.imu.imuTickPending).1.length = ticksAt inputs k := by
      rw [hfollows.pending_eq, ticksAt, hi]
      rfl
    have hcount := hclocks.count hi hmeasures
    have hdue : 1000 ≤ i.nowMs - s.monitor.lastMs ↔ RunsAt 1000 M k := by
      rw [hlast, hclocks.ms_eq k i hi]
      exact Timing.period_le_reading_iff hclocks.polls (by decide) rfl k
    refine ⟨hiter.ok, ?_, ?_⟩
    · rw [hiter.imu_eq, claimed_take_succ hi]
      exact followsClaims_step i _ hfollows
    · rw [monitor_of_loop hr, hticks, Monitor.update_eq, Timing.lastRun_succ]
      by_cases hreport : RunsAt 1000 M k
      · rw [if_pos (hdue.mpr hreport), if_pos hreport]
        exact ⟨hclocks.ms_eq k i hi, hcount.restart hreport i.nowMs⟩
      · rw [if_neg (mt hdue.mp hreport), if_neg hreport]
        refine ⟨?_, hcount.stay hreport⟩
        rw [← hlast]
        unfold Monitor.count
        split_ifs <;> rfl
  have hinit : LoopState.Ok (.init gzOffset gDeadzone) ∧
      FollowsClaims gzOffset gDeadzone (claimed (inputs.take 0))
        (LoopState.init gzOffset gDeadzone).imu ∧
      (LoopState.init gzOffset gDeadzone).monitor.lastMs = reading (Timing.lastRun 1000 M 0) ∧
      Measures U M (ticksAt inputs) 0 0 (LoopState.init gzOffset gDeadzone).monitor :=
    ⟨LoopState.ok_init gzOffset gDeadzone, ⟨rfl, rfl, rfl, rfl⟩, rfl,
      .inl ⟨fun j hj => absurd hj (Nat.not_lt_zero j), rfl, rfl, rfl⟩⟩
  exact (Machine.run_induction hstep hinit h hk).2.2

end

/-- A sum with a part of it added back. -/
theorem toNat_of_add_ofNat {x : UInt64} {lost total : ℕ}
    (h : x + UInt64.ofNat lost = UInt64.ofNat total) (hle : lost ≤ total) (hlt : total < 2 ^ 64) :
    x.toNat = total - lost := by
  have hx := x.toNat_lt
  have hnat := congrArg UInt64.toNat h
  rw [UInt64.toNat_add, UInt64.toNat_ofNat', UInt64.toNat_ofNat', Nat.mod_eq_of_lt hlt,
    Nat.mod_eq_of_lt (hle.trans_lt hlt)] at hnat
  omega

/-- The mean and the frequency printed for a window. -/
theorem Sums.report_eq {U n : ℕ → ℕ} {b l : ℕ} {m : Monitor} (h : Sums U n b l m) (hU : Monotone U)
    (hbl : b ≤ l) (hcounted : lostTicks U n b l < ∑ j ∈ Finset.Ioc b l, n j)
    (hticks : ∑ j ∈ Finset.Ioc b l, n j < 2 ^ 32) (htime : U l - U b < 2 ^ 64) :
    (m.report F).2.1 * ((∑ j ∈ Finset.Ioc b l, n j : ℕ) - lostTicks U n b l) =
        U l - U b - lostUs U n b l ∧
      (lostUs U n b l < U l - U b →
        (m.report F).2.2 * (U l - U b - lostUs U n b l) =
          1000000 * ((∑ j ∈ Finset.Ioc b l, n j : ℕ) - lostTicks U n b l)) := by
  have htick : m.tickSum.toNat = ∑ j ∈ Finset.Ioc b l, n j - lostTicks U n b l := by
    have hnat := congrArg UInt32.toNat h.tickSum_eq
    have hsum := m.tickSum.toNat_lt
    rw [UInt32.toNat_add, UInt32.toNat_ofNat', UInt32.toNat_ofNat', Nat.mod_eq_of_lt hticks,
      Nat.mod_eq_of_lt (hcounted.trans hticks)] at hnat
    omega
  have hdelta : m.deltaSumUs.toNat = U l - U b - lostUs U n b l :=
    toNat_of_add_ofNat h.deltaSumUs_eq h.lostUs_le htime
  have hne : m.tickSum ≠ 0 := by
    intro hzero
    rw [hzero, UInt32.toNat_zero] at htick
    omega
  have hlost := h.lostUs_le
  generalize ∑ j ∈ Finset.Ioc b l, n j = ticks at hcounted htick ⊢
  have hpos : (0 : F) < ticks - lostTicks U n b l := sub_pos.mpr (Nat.cast_lt.mpr hcounted)
  have havg : (m.report F).2.1 =
      (U l - U b - lostUs U n b l : F) / (ticks - lostTicks U n b l) := by
    unfold Monitor.report
    dsimp only
    rw [if_pos hne, hdelta, htick, Nat.cast_sub hlost, Nat.cast_sub (hU hbl),
      Nat.cast_sub hcounted.le]
  refine ⟨by rw [havg, div_mul_cancel₀ _ hpos.ne'], fun hlt => ?_⟩
  have hspan : (0 : F) < U l - U b - lostUs U n b l := by
    rw [← Nat.cast_sub (hU hbl)]
    exact sub_pos.mpr (Nat.cast_lt.mpr hlt)
  have hfreq : (m.report F).2.2 =
      1000000 / ((U l - U b - lostUs U n b l : F) / (ticks - lostTicks U n b l)) := by
    have havg₀ : 0 < (m.report F).2.1 := havg ▸ div_pos hspan hpos
    calc (m.report F).2.2 = ((1000000 : ℕ) : F) / (m.report F).2.1 := if_pos havg₀
      _ = _ := by rw [havg, Nat.cast_ofNat]
  rw [hfreq, div_div_eq_mul_div, div_mul_cancel₀ _ hspan.ne']

/-- Within a window there is always a last iteration with ticks. -/
theorem lastTicked_mem {n : ℕ → ℕ} {b : ℕ} (hb : 0 < n b) {j : ℕ} (hj : b < j) :
    b ≤ lastTicked n j ∧ lastTicked n j < j ∧ 0 < n (lastTicked n j) := by
  induction j, Nat.succ_le_of_lt hj using Nat.le_induction with
  | base =>
    rw [lastTicked, if_pos hb]
    exact ⟨le_rfl, Nat.lt_succ_self b, hb⟩
  | succ j hbj ih =>
    rw [lastTicked]
    split_ifs with hpos
    · exact ⟨Nat.le_of_succ_le hbj, Nat.lt_succ_self j, hpos⟩
    · obtain ⟨hle, hlt, htick⟩ := ih hbj
      exact ⟨hle, Nat.lt_succ_of_lt hlt, htick⟩

/-- Nothing is lost as long as the clock does not show 0 in an iteration with ticks. -/
theorem lost_eq_zero {U n : ℕ → ℕ} {b l : ℕ} (hb : 0 < n b)
    (h : ∀ j, b ≤ j → j < l → 0 < n j → reading (U j) ≠ 0) :
    lostTicks U n b l = 0 ∧ lostUs U n b l = 0 := by
  have hset : ∀ j ∈ Finset.Ioc b l, reading (U (lastTicked n j)) ≠ 0 := by
    intro j hj
    obtain ⟨hbj, hjl⟩ := Finset.mem_Ioc.mp hj
    obtain ⟨hle, hlt, hpos⟩ := lastTicked_mem hb hbj
    exact h _ hle (hlt.trans_le hjl) hpos
  exact ⟨Finset.sum_eq_zero fun j hj => if_neg (hset j hj),
    Finset.sum_eq_zero fun j hj => if_neg fun hlost => hset j hj hlost.2⟩

/-- The monitor measures the ticks. In every run from power-on whose clocks are read as
`MonitorClocks` says, an iteration prints a report exactly when a second has passed since the last
report. If no tick has been processed yet the report is all zeros. Otherwise it is about the time
from iteration `b` to iteration `l`, the last one with ticks, where `b` is the last one with ticks
up to the report before or, without one, the first of all. The ticks printed are those processed
after `b`, and, when there are any and they fit, `avg_us` times the ticks is that time, and `freq`
the number of ticks in a second. What is lost are the ticks of each iteration whose last one with
ticks has read the clock at 0, and the time between the two. So no other tick and no other time is
left out between reports, and none is counted in two of them. -/
theorem monitor_report (trig : Trig F) (gzOffset gDeadzone : F) {inputs : List Input}
    {U M : ℕ → ℕ} (hclocks : MonitorClocks inputs U M) :
    ∃ rs, runLoop trig inputs (.init gzOffset gDeadzone) = .ok rs ∧
      ∀ k i m, inputs[k]? = some i →
        m = (Machine.final (.init gzOffset gDeadzone) (rs.take k)).monitor →
        (1000 ≤ i.nowMs - m.lastMs ↔ RunsAt 1000 M k) ∧
        ((∀ j ≤ k, ticksAt inputs j = 0) ∧
            (m.count (ticksAt inputs k) i.nowUs).report F = (0, 0, 0) ∨
          ∃ b l ticks lost lostTime, Window (ticksAt inputs) b l (k + 1) ∧
            OpensAt M (ticksAt inputs) k b ∧
            ticks = ∑ j ∈ Finset.Ioc b l, ticksAt inputs j ∧
            lost = lostTicks U (ticksAt inputs) b l ∧
            lostTime = lostUs U (ticksAt inputs) b l ∧
            ((∀ j, b ≤ j → j < l → 0 < ticksAt inputs j → reading (U j) ≠ 0) →
              lost = 0 ∧ lostTime = 0) ∧
            ((m.count (ticksAt inputs k) i.nowUs).report F).1 + UInt32.ofNat lost =
              UInt32.ofNat ticks ∧
            (lost < ticks → ticks < 2 ^ 32 → U l - U b < 2 ^ 64 →
              ((m.count (ticksAt inputs k) i.nowUs).report F).2.1 * (ticks - lost) =
                  U l - U b - lostTime ∧
              (lostTime < U l - U b →
                ((m.count (ticksAt inputs k) i.nowUs).report F).2.2 * (U l - U b - lostTime) =
                  1000000 * (ticks - lost)))) := by
  obtain ⟨rs, hrs, -⟩ := exists_runLoop trig inputs (LoopState.ok_init gzOffset gDeadzone)
  refine ⟨rs, hrs, fun k i m hi hm => ?_⟩
  have hk : k < inputs.length := (List.getElem?_eq_some_iff.mp hi).1
  obtain ⟨hlast, hmeasures⟩ := measures_run hclocks hrs hk.le
  rw [← hm] at hlast hmeasures
  constructor
  · rw [hlast, hclocks.ms_eq k i hi]
    exact Timing.period_le_reading_iff hclocks.polls (by decide) rfl k
  · rcases hclocks.count hi hmeasures with ⟨hnone, -, -, htick⟩ | ⟨b, l, hw, hopen, hsums⟩
    · refine .inl ⟨fun j hj => hnone j (Nat.lt_succ_of_le hj), ?_⟩
      unfold Monitor.report
      dsimp only
      rw [htick, if_neg (not_not.mpr rfl), if_neg (lt_irrefl 0)]
    · exact .inr ⟨b, l, _, _, _, hw, hopen, rfl, rfl, rfl, lost_eq_zero hw.first_pos,
        hsums.tickSum_eq, hsums.report_eq hclocks.mono hw.le⟩

/-- The first second, with ticks in iterations a millisecond apart. In the second of them the clock
shows 0. -/
def secondInputs : List Input :=
  [(1, 4294966296, 1), (2, 0, 334), (1, 1000, 667), (2, 2000, 1000)].map
    fun (ticks, nowUs, nowMs) =>
      { Input.untimed silentRead ticks (fun _ => .ofGz 0 0) with
        nowUs := nowUs
        nowMs := nowMs }

theorem secondInputs_clocks :
    MonitorClocks secondInputs (fun k => 1000 * k + 4294966296) fun k => 333 * k + 1 := by
  have hplace : ∀ k, 4 ≤ k → secondInputs[k]? = none := fun k hk => List.getElem?_eq_none hk
  have hticked : ∀ k, 0 < ticksAt secondInputs k → k < 4 := by
    intro k hk
    by_contra hle
    rw [ticksAt, hplace k (Nat.le_of_not_lt hle)] at hk
    exact absurd hk (lt_irrefl 0)
  have hread : ∀ k i, secondInputs[k]? = some i →
      i.nowUs = reading (1000 * k + 4294966296) ∧ i.nowMs = reading (333 * k + 1) := by
    intro k i hi
    match k, hi with
    | 0, rfl | 1, rfl | 2, rfl | 3, rfl => exact ⟨rfl, rfl⟩
    | k + 4, hi => rw [hplace (k + 4) (Nat.le_add_left 4 k)] at hi; cases hi
  refine ⟨fun k i hi => (hread k i hi).1, fun k i hi => (hread k i hi).2,
    fun j k hjk => by omega, ⟨by decide, fun n => by omega, fun n => by omega⟩, ?_⟩
  intro l k _ _ hk _
  have hlt := hticked k hk
  omega

/-- The report counts four of the five ticks, and two of the three milliseconds. -/
theorem monitor_report_second :
    ∃ rs, runLoop .constant secondInputs (.init (0 : ℚ) 0) = .ok rs ∧
      ∀ m, m = (Machine.final (.init (0 : ℚ) 0) (rs.take 3)).monitor →
        ((m.count 2 2000).report ℚ).1 = 4 ∧ ((m.count 2 2000).report ℚ).2.1 = 500 ∧
          ((m.count 2 2000).report ℚ).2.2 = 2000 := by
  obtain ⟨rs, hrs, hrun⟩ := monitor_report .constant (0 : ℚ) 0 secondInputs_clocks
  refine ⟨rs, hrs, fun m hm => ?_⟩
  have hzero : 0 < ticksAt secondInputs 0 := by decide
  rcases (hrun 3 _ m rfl hm).2 with
    ⟨hnone, -⟩ | ⟨b, l, ticks, lost, lostTime, hw, hopen, hticks, hlost, htime, -, hsum, hreport⟩
  · exact absurd (hnone 0 (Nat.zero_le 3)) hzero.ne'
  · -- the window is the whole run
    have hle := hw.le
    have hlt := hw.lt
    obtain rfl : l = 3 := by
      by_contra hne
      exact absurd (hw.idle 3 (by omega) (by decide)) (by decide)
    obtain rfl : b = 0 := by
      by_contra hne
      rcases hopen.first_or with hnone | ⟨p, hp, hruns, -⟩
      · exact absurd (hnone 0 (by omega)) hzero.ne'
      · exact absurd hruns ((by decide : ∀ p < 3, ¬ RunsAt 1000 (fun k => 333 * k + 1) p) p hp)
    obtain ⟨rfl, rfl, rfl⟩ : ticks = 5 ∧ lost = 1 ∧ lostTime = 1000 := by
      refine ⟨hticks.trans ?_, hlost.trans ?_, htime.trans ?_⟩ <;> decide +kernel
    obtain ⟨havg, hfreq⟩ := hreport (by decide) (by decide) (by decide)
    have hfreq' := hfreq (by decide)
    change ((m.count 2 2000).report ℚ).1 + 1 = 5 at hsum
    change ((m.count 2 2000).report ℚ).2.1 * _ = _ at havg
    change ((m.count 2 2000).report ℚ).2.2 * _ = _ at hfreq'
    norm_num at havg hfreq'
    refine ⟨?_, by linarith, by linarith⟩
    rw [← UInt32.add_sub_cancel (Monitor.report ℚ _).1 1, hsum]
    rfl
