import Mathlib.Algebra.Group.Nat.Defs
import Mathlib.Algebra.Order.Group.Nat
import OmniRobot.Loop.NoSignal
import OmniRobot.Queueing.Server

/-!
# The backlog of ticks

`imu_update` takes at most ten of the pending ticks in each iteration of `loop()`, to "avoid spiral
of death when loop is slow". The loop is a server with that rate, the timer interrupts are the work
that arrives, and `imu_tick_pending` is the backlog.

## Main results

* `Input.claim_spec`: one claim, as long as the 32-bit counter does not wrap;
* `claimed_run`: the counter and the heading of a run, from the bursts it has claimed;
* `ticks_backlog`: a bound on the bursts of interrupts bounds the backlog and the delay.
-/

open Queueing (arrived backlog)

/-- The timer interrupts before the claim of each iteration. -/
def arrivals (inputs : List Input) (k : ℕ) : ℕ := (inputs[k]?.map Input.ticks).getD 0

theorem arrived_arrivals (inputs : List Input) {k : ℕ} (hk : k ≤ inputs.length) :
    arrived (arrivals inputs) k = ((inputs.take k).map Input.ticks).sum := by
  induction k with
  | zero => rfl
  | succ k ih =>
    have hi : inputs[k]? = some inputs[k] := List.getElem?_eq_getElem hk
    rw [Queueing.arrived_succ, ih (Nat.le_of_succ_le hk), List.take_add_one, arrivals, hi,
      List.map_append, List.sum_append]
    rfl

/-- The claim of one iteration. -/
theorem Input.claim_spec (i : Input) (pending : UInt32) (h : pending.toNat + i.ticks < 2 ^ 32) :
    (i.claim pending).1.length + (i.claim pending).2.toNat = pending.toNat + i.ticks ∧
      (i.claim pending).2.toNat = pending.toNat + i.ticks - 10 := by
  have hticks : (UInt32.ofNat i.ticks).toNat = i.ticks := by
    rw [UInt32.toNat_ofNat']
    omega
  have havailable : (pending + UInt32.ofNat i.ticks).toNat = pending.toNat + i.ticks := by
    rw [UInt32.toNat_add, hticks]
    omega
  unfold Input.claim
  dsimp only
  rw [List.length_map, List.length_range]
  by_cases hten : pending + UInt32.ofNat i.ticks ≤ 10
  · have hmin : min (pending + UInt32.ofNat i.ticks) 10 = pending + UInt32.ofNat i.ticks :=
      if_pos hten
    have hle : pending.toNat + i.ticks ≤ 10 := havailable ▸ UInt32.le_iff_toNat_le.mp hten
    rw [hmin, UInt32.sub_self, UInt32.toNat_zero, havailable]
    omega
  · have hmin : min (pending + UInt32.ofNat i.ticks) 10 = 10 := if_neg hten
    have hlt : 10 < pending.toNat + i.ticks := by
      refine Nat.lt_of_not_le fun hle => hten (UInt32.le_iff_toNat_le.mpr ?_)
      rwa [havailable]
    have hsub : (pending + UInt32.ofNat i.ticks - 10).toNat = pending.toNat + i.ticks - 10 := by
      have hle : 10 ≤ pending + UInt32.ofNat i.ticks :=
        UInt32.le_iff_toNat_le.mpr (by rw [havailable]; exact hlt.le)
      rw [UInt32.toNat_sub_of_le _ _ hle, havailable]
      rfl
    rw [hmin, hsub]
    exact ⟨Nat.add_sub_cancel' hlt.le, rfl⟩

theorem claimed_take_succ {inputs : List Input} {k : ℕ} {i : Input} (hi : inputs[k]? = some i) :
    claimed (inputs.take (k + 1)) = (claimed (inputs.take k)).step i := by
  rw [claimed, List.take_add_one, hi, List.foldl_append]
  rfl

/-- What the loop claims is what the server takes. -/
theorem claimed_backlog {inputs : List Input} {σ : ℕ} (hfit : σ + 10 < 2 ^ 32)
    (h : ∀ k ≤ inputs.length, backlog 10 (arrivals inputs) k ≤ σ) {k : ℕ}
    (hk : k ≤ inputs.length) :
    (claimed (inputs.take k)).pending.toNat = backlog 10 (arrivals inputs) k ∧
      (claimed (inputs.take k)).bursts.length + backlog 10 (arrivals inputs) k =
        arrived (arrivals inputs) k := by
  induction k with
  | zero => exact ⟨rfl, rfl⟩
  | succ k ih =>
    obtain ⟨hpending, hbursts⟩ := ih (Nat.le_of_succ_le hk)
    have hi : inputs[k]? = some inputs[k] := List.getElem?_eq_getElem hk
    have harrival : arrivals inputs k = inputs[k].ticks := by rw [arrivals, hi]; rfl
    have hnext := h (k + 1) hk
    rw [backlog, harrival] at hnext ⊢
    -- the bound on the backlog keeps the counter from wrapping
    obtain ⟨hsum, hrest⟩ := inputs[k].claim_spec (claimed (inputs.take k)).pending (by omega)
    rw [claimed_take_succ hi, Queueing.arrived_succ, harrival]
    change ((inputs[k].claim (claimed (inputs.take k)).pending).2).toNat = _ ∧
      ((claimed (inputs.take k)).bursts ++
        (inputs[k].claim (claimed (inputs.take k)).pending).1).length + _ = _
    rw [List.length_append]
    omega

variable {F : Type} [Field F] [LinearOrder F] [IsStrictOrderedRing F] [FloorRing F]

/-- The IMU stage turns the heading by the bursts it claims, in either mode of yaw hold. -/
theorem imuStage_heading (i : Input) (vrCmd : ℤ) (imu : Imu F) :
    (imuStage i vrCmd imu).gImu.yaw = yawAfter imu.gzOffset imu.gDeadzone imu.gImu.yaw
        (i.claim imu.imuTickPending).1 ∧
      (imuStage i vrCmd imu).gzOffset = imu.gzOffset ∧
      (imuStage i vrCmd imu).gDeadzone = imu.gDeadzone := by
  rw [imuStage_eq]
  generalize (i.claim imu.imuTickPending).2 = pending
  generalize (i.claim imu.imuTickPending).1 = bufs
  obtain ⟨hyaw, hoff, hdz⟩ :
      (switchYawHold vrCmd imu).gImu.yaw = imu.gImu.yaw ∧
        (switchYawHold vrCmd imu).gzOffset = imu.gzOffset ∧
        (switchYawHold vrCmd imu).gDeadzone = imu.gDeadzone := by
    unfold switchYawHold
    split_ifs <;> exact ⟨rfl, rfl, rfl⟩
  have hticks : ∀ (hold : Bool) (target : F) (s : Imu F),
      (bufs.foldl (imuTick hold target vrCmd) s).gImu.yaw =
        yawAfter s.gzOffset s.gDeadzone s.gImu.yaw bufs := by
    intro hold target
    induction bufs with
    | nil => exact fun _ => rfl
    | cons buf bufs ih =>
      intro s
      rw [List.foldl_cons, ih, imuTick_gImu]
      cases hold <;> rfl
  refine ⟨?_, ?_, ?_⟩
  · rw [hticks, hyaw, hoff, hdz]
  · exact (ticks_sameSettings _ _ _ _ _).gzOffset_eq.trans hoff
  · exact (ticks_sameSettings _ _ _ _ _).gDeadzone_eq.trans hdz

/-- The counter and the heading after any number of iterations. -/
structure FollowsClaims (gzOffset gDeadzone : F) (c : Claimed) (imu : Imu F) : Prop where
  gzOffset_eq : imu.gzOffset = gzOffset
  gDeadzone_eq : imu.gDeadzone = gDeadzone
  pending_eq : imu.imuTickPending = c.pending
  yaw_eq : imu.gImu.yaw = yawAfter gzOffset gDeadzone 0 c.bursts

theorem followsClaims_step {gzOffset gDeadzone : F} {c : Claimed} {imu : Imu F} (i : Input)
    (vrCmd : ℤ) (h : FollowsClaims gzOffset gDeadzone c imu) :
    FollowsClaims gzOffset gDeadzone (c.step i) (imuStage i vrCmd imu) := by
  obtain ⟨hyaw, hoff, hdz⟩ := imuStage_heading i vrCmd imu
  refine ⟨hoff.trans h.gzOffset_eq, hdz.trans h.gDeadzone_eq, ?_, ?_⟩
  · rw [imuStage_imuTickPending, h.pending_eq]
    rfl
  · rw [hyaw, h.gzOffset_eq, h.gDeadzone_eq, h.pending_eq, h.yaw_eq, ← yawAfter_append]
    rfl

theorem claimed_run {trig : Trig F} {gzOffset gDeadzone : F} {inputs : List Input}
    {rs : List (LoopState F × Observation)}
    (h : runLoop trig inputs (.init gzOffset gDeadzone) = .ok rs) {k : ℕ}
    (hk : k ≤ inputs.length) :
    FollowsClaims gzOffset gDeadzone (claimed (inputs.take k))
      (Machine.final (.init gzOffset gDeadzone) (rs.take k)).imu := by
  refine runLoop_induction (P := fun k s => FollowsClaims gzOffset gDeadzone
    (claimed (inputs.take k)) s.imu) (fun k i s r hi _ hs hiter => ?_)
    (LoopState.ok_init gzOffset gDeadzone) ⟨rfl, rfl, rfl, rfl⟩ h hk
  rw [hiter.imu_eq, claimed_take_succ hi]
  exact followsClaims_step i _ hs

/-- A robot that keeps up. Let any `n` iterations in a row bring at most `10 * n + σ` timer
interrupts, with `σ` small enough for the 32-bit counter. Then in every run from power-on the
counter never exceeds `σ`, every interrupt is either pending or has had its burst read and turned
the heading, and after any iteration the interrupts up to `d` iterations ago are among the latter,
for any `d` with `σ ≤ 10 * d`. -/
theorem ticks_backlog (trig : Trig F) (gzOffset gDeadzone : F) (inputs : List Input) {σ d : ℕ}
    (hfit : σ + 10 < 2 ^ 32) (hd : σ ≤ 10 * d)
    (hrate : ∀ j n, j + n ≤ inputs.length →
      (((inputs.drop j).take n).map Input.ticks).sum ≤ 10 * n + σ) :
    ∃ rs, runLoop trig inputs (.init gzOffset gDeadzone) = .ok rs ∧ ∀ k ≤ inputs.length,
      (Machine.final (.init gzOffset gDeadzone) (rs.take k)).imu.imuTickPending.toNat ≤ σ ∧
      (claimed (inputs.take k)).bursts.length +
          (Machine.final (.init gzOffset gDeadzone) (rs.take k)).imu.imuTickPending.toNat =
        ((inputs.take k).map Input.ticks).sum ∧
      (Machine.final (.init gzOffset gDeadzone) (rs.take k)).imu.gImu.yaw =
        yawAfter gzOffset gDeadzone 0 (claimed (inputs.take k)).bursts ∧
      ((inputs.take (k - d)).map Input.ticks).sum ≤ (claimed (inputs.take k)).bursts.length := by
  obtain ⟨rs, hrs, -⟩ := exists_runLoop trig inputs (LoopState.ok_init gzOffset gDeadzone)
  refine ⟨rs, hrs, fun k hk => ?_⟩
  -- a block of iterations is what the longer prefix has more than the shorter one
  have hbacklog : ∀ n ≤ inputs.length, backlog 10 (arrivals inputs) n ≤ σ := by
    refine (Queueing.forall_backlog_le_iff 10 _).mpr fun j n hjn hn => ?_
    have hblock := hrate j (n - j) (by omega)
    have hsplit : inputs.take n = inputs.take j ++ (inputs.drop j).take (n - j) := by
      rw [← List.take_add, Nat.add_sub_cancel' hjn]
    rw [arrived_arrivals inputs hn, arrived_arrivals inputs (hjn.trans hn), hsplit, List.map_append,
      List.sum_append, Nat.nsmul_eq_mul]
    omega
  obtain ⟨hpending, hbursts⟩ := claimed_backlog hfit hbacklog hk
  have hdelay := Queueing.arrived_add_backlog_le 10 (arrivals inputs) (d := d)
    (by rw [Nat.nsmul_eq_mul]; omega) hbacklog hk
  have hfollows := claimed_run hrs hk
  rw [hfollows.pending_eq, hpending, ← arrived_arrivals inputs hk,
    ← arrived_arrivals inputs ((Nat.sub_le k d).trans hk)]
  exact ⟨hbacklog k hk, hbursts, hfollows.yaw_eq, by omega⟩

/-- A loop that has stalled for 25 ticks catches up in three iterations. -/
def stalledInputs : List Input :=
  [.untimed silentRead 25 fun _ => .ofGz 0 0, .untimed silentRead 5 fun _ => .ofGz 0 0,
    .untimed silentRead 5 fun _ => .ofGz 0 0]

theorem ticks_backlog_stalled :
    ∃ rs, runLoop .constant stalledInputs (.init (0 : ℚ) 0) = .ok rs ∧
      (claimed stalledInputs).bursts.length +
        (Machine.final (.init (0 : ℚ) 0) rs).imu.imuTickPending.toNat = 35 ∧
      25 ≤ (claimed stalledInputs).bursts.length := by
  have hlen : stalledInputs.length = 3 := rfl
  have hburst : ∀ j < 4, ∀ n < 4,
      (((stalledInputs.drop j).take n).map Input.ticks).sum ≤ 10 * n + 15 := by
    decide
  obtain ⟨rs, hrs, hrun⟩ := ticks_backlog .constant (0 : ℚ) 0 stalledInputs (σ := 15) (d := 2)
    (by decide) (by decide) (fun j n hjn => hburst j (Nat.lt_succ_of_le (by omega)) n
      (Nat.lt_succ_of_le (by omega)))
  have hall : rs.take 3 = rs := List.take_of_length_le (Machine.length_of_run hrs).le
  obtain ⟨-, hsum, -, hdelay⟩ := hrun 3 le_rfl
  rw [hall] at hsum
  exact ⟨rs, hrs, hsum, hdelay⟩
