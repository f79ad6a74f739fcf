import OmniRobot.Interleaving.Ticks
import OmniRobot.Locking.Blocks

/-!
# The IMU code, access by access

The steps of `Interleaving` are whole critical sections. Here they are what the source has: single
loads and stores between the acquisition and the release of `g_imu_mux`, by the timer interrupt,
by `loop()` and by any number of tasks that call `imu_get_snapshot` and `imu_reset_yaw`.

Of the variables of `imu.cpp` only `imu_tick_pending` and `g_imu` are accessed by more than one of
these. All others belong to `loop()`, and it accesses some of them outside of any section.

## Main results

* `step_of_whole`: a block that runs at once is a step, or takes a snapshot;
* `runSteps_of_wholeRun`: so a run of such blocks is one of the interleavings of the sections;
* `accesses_run`: every interleaving of the accesses comes down to one of the sections.
-/

namespace Interleaving

open Locking

/-! ### Variables -/

/-- The variables that more than one thread accesses. -/
structure Common (F : Type) where
  imuTickPending : UInt32
  gImu : IMUSnapshot F

/-- The threads. -/
inductive Thread where
  | timer
  | loop
  | task (n : ℕ)
  deriving DecidableEq

/-- What belongs to `loop()`: the variables of `imu.cpp` in `imu`, but for the two common ones,
which are not used there; the place between two sections; and the locals. -/
structure LoopOwn (F : Type) where
  imu : Imu F
  phase : Phase F
  pending : UInt32
  ticksToProcess : UInt32
  holdEnabled : Bool
  targetYaw : F
  gzC : F
  newYaw : F
  vrOut : ℤ
  currentYaw : F
  yawSnapshot : F
  vrSnapshot : ℤ

/-- What belongs to a task: the snapshot it is taking, and those its calls have returned. -/
structure TaskOwn (F : Type) where
  s : IMUSnapshot F
  returned : List (IMUSnapshot F)

/-- What belongs to a thread. The interrupt has the register in which it counts. -/
abbrev Own (F : Type) : Thread → Type
  | .timer => UInt32
  | .loop => LoopOwn F
  | .task _ => TaskOwn F

/-! ### Code -/

/-- What `loop()` runs, from one of its places to the next, with the locals of `imu_update`. -/
inductive LoopCode (F : Type) where
  | switch (vrCmd : ℤ)
  | claim (vrCmd : ℤ)
  | readHeading (c : Call F) (buf : Burst)
  | writeHeading (c : Call F) (next : IMUSnapshot F)
  | writeRotation (c : Call F) (newYaw : F)
  | readYaw
  | readMonitor

/-- What a task calls. -/
inductive TaskCode where
  | getSnapshot
  | resetYaw

/-- What a thread runs. -/
abbrev Code (F : Type) : Thread → Type
  | .timer => Unit
  | .loop => LoopCode F
  | .task _ => TaskCode

section

variable {F : Type} [Field F] [LinearOrder F] [IsStrictOrderedRing F] [FloorRing F]

/-- `onImuTimer`: the increment is a load and a store. -/
def timerBlock : Block (Common F) UInt32 :=
  .locked []
    [fun p => (p.1, p.1.imuTickPending),
      fun p => ({ p.1 with imuTickPending := p.2 + 1 }, p.2)]
    []

/-- `loop()` and `imu_update`. -/
def LoopCode.block : LoopCode F → Block (Common F) (LoopOwn F)
  | .switch vrCmd =>
      if 20 < |vrCmd| then
        .locked [fun l => { l with imu := { l.imu with yawHoldEnabled := false } }]
          [fun p => (p.1, { p.2 with imu := { p.2.imu with yawTarget := p.2.imu.yawAngle } })]
          [fun l => { l with imu := { l.imu with pidIntegral := 0 } }]
      else .plain [fun l => { l with imu := { l.imu with yawHoldEnabled := true } }]
  | .claim vrCmd =>
      .locked []
        [fun p => (p.1, { p.2 with ticksToProcess := p.1.imuTickPending }),
          fun p => (p.1, { p.2 with
            ticksToProcess := if 10 < p.2.ticksToProcess then 10 else p.2.ticksToProcess }),
          fun p => (p.1, { p.2 with pending := p.1.imuTickPending }),
          fun p => ({ p.1 with imuTickPending := p.2.pending - p.2.ticksToProcess }, p.2),
          fun p => (p.1, { p.2 with holdEnabled := p.2.imu.yawHoldEnabled }),
          fun p => (p.1, { p.2 with targetYaw := p.2.imu.yawTarget })]
        [fun l => { l with
          phase := (Call.resume ⟨vrCmd, l.holdEnabled, l.targetYaw, l.ticksToProcess.toNat,
            l.ticksToProcess.toNat⟩).1 }]
  | .readHeading c buf =>
      .locked [fun l => { l with gzC := correctedRate l.imu.gzOffset buf }]
        [fun p => (p.1, { p.2 with newYaw := p.1.gImu.yaw })]
        [fun l => { l with newYaw := integrateYaw l.imu.gDeadzone l.gzC l.newYaw },
          fun l => { l with
            phase := .window { c with ticksToProcess := c.ticksToProcess - 1 }
              ⟨l.newYaw, l.gzC, int16OfBytes (buf 7) (buf 6) * accelSensitivity,
                int16OfBytes (buf 9) (buf 8) * accelSensitivity,
                int16OfBytes (buf 11) (buf 10) * accelSensitivity⟩ }]
  | .writeHeading c next =>
      .locked []
        [fun p => ({ p.1 with gImu := { p.1.gImu with yaw := next.yaw } }, p.2),
          fun p => ({ p.1 with gImu := { p.1.gImu with gz := next.gz } }, p.2),
          fun p => ({ p.1 with gImu := { p.1.gImu with ax := next.ax } }, p.2),
          fun p => ({ p.1 with gImu := { p.1.gImu with ay := next.ay } }, p.2),
          fun p => ({ p.1 with gImu := { p.1.gImu with az := next.az } }, p.2),
          fun p => (p.1, { p.2 with imu := { p.2.imu with yawAngle := next.yaw } })]
        [fun l => { l with phase := .drive c next.yaw }]
  | .writeRotation c newYaw =>
      .locked
        [fun l =>
          if c.holdEnabled then
            let r := computeYawPid c.targetYaw newYaw l.imu
            { l with imu := r.2, vrOut := r.1 }
          else { l with vrOut := c.vrCmd }]
        [fun p => (p.1, { p.2 with imu := { p.2.imu with vrFinal := p.2.vrOut } })]
        [fun l => { l with phase := c.resume.1 }]
  | .readYaw =>
      .locked [] [fun p => (p.1, { p.2 with currentYaw := p.2.imu.yawAngle })] []
  | .readMonitor =>
      .locked []
        [fun p => (p.1, { p.2 with yawSnapshot := p.2.imu.yawAngle }),
          fun p => (p.1, { p.2 with vrSnapshot := p.2.imu.vrFinal })]
        []

/-- Where `loop()` may run what. -/
def LoopCode.enabled (l : LoopOwn F) : LoopCode F → Bool
  | .switch _ | .claim _ | .readYaw | .readMonitor => l.phase = .idle
  | .readHeading c _ => l.phase = .head c
  | .writeHeading c next => l.phase = .window c next
  | .writeRotation c newYaw => l.phase = .drive c newYaw

/-- `imu_get_snapshot` and `imu_reset_yaw`. -/
def TaskCode.block : TaskCode → Block (Common F) (TaskOwn F)
  | .getSnapshot =>
      .locked []
        [fun p => (p.1, { p.2 with s := { p.2.s with yaw := p.1.gImu.yaw } }),
          fun p => (p.1, { p.2 with s := { p.2.s with gz := p.1.gImu.gz } }),
          fun p => (p.1, { p.2 with s := { p.2.s with ax := p.1.gImu.ax } }),
          fun p => (p.1, { p.2 with s := { p.2.s with ay := p.1.gImu.ay } }),
          fun p => (p.1, { p.2 with s := { p.2.s with az := p.1.gImu.az } })]
        [fun l => { l with returned := l.returned ++ [l.s] }]
  | .resetYaw =>
      .locked [] [fun p => ({ p.1 with gImu := { p.1.gImu with yaw := 0 } }, p.2)] []

/-- The program. -/
def program : System Thread (Common F) (Own F) (Code F) where
  block
    | .timer, _ => timerBlock
    | .loop, b => LoopCode.block b
    | .task _, b => TaskCode.block b
  enabled
    | .timer, _, _ => true
    | .loop, b, l => LoopCode.enabled l b
    | .task _, _, _ => true

/-- At first no snapshot has been taken. -/
def noSnapshot : IMUSnapshot F := ⟨0, 0, 0, 0, 0⟩

/-- The variables when the timer starts. -/
def ownInit (gzOffset gDeadzone : F) : ∀ t, Own F t
  | .timer => (0 : UInt32)
  | .loop => (⟨.init gzOffset gDeadzone, .idle, 0, 0, false, 0, 0, 0, 0, 0, 0, 0⟩ : LoopOwn F)
  | .task _ => (⟨noSnapshot, []⟩ : TaskOwn F)

/-- The shared variables then. -/
def commonInit : Common F := ⟨0, noSnapshot⟩

/-! ### Blocks that run at once -/

/-- The variables as the sections share them: the common ones, and those of `loop()`. -/
def shared (m : Common F) (l : LoopOwn F) : Shared F :=
  ⟨{ l.imu with imuTickPending := m.imuTickPending, gImu := m.gImu }, l.phase⟩

/-- The snapshots that a task has got. -/
def snapshots (own : ∀ t, Own F t) (n : ℕ) : List (IMUSnapshot F) :=
  let l : TaskOwn F := own (.task n)
  l.returned

/-- The section of a block of `loop()`. -/
def LoopCode.action : LoopCode F → Action
  | .switch vrCmd => .switch vrCmd
  | .claim vrCmd => .claim vrCmd
  | .readHeading _ buf => .readHeading buf
  | .writeHeading _ _ => .writeHeading
  | .writeRotation _ _ => .writeRotation
  | .readYaw | .readMonitor => .look

/-- The section of a block. A snapshot is none of the sections: it leaves the variables alone. -/
def actionsOf : (Σ t, Code F t) → List Action
  | ⟨.timer, _⟩ => [.timer]
  | ⟨.loop, b⟩ => [LoopCode.action b]
  | ⟨.task _, .getSnapshot⟩ => []
  | ⟨.task _, .resetYaw⟩ => [.reset]

/-- The clamp of `imu_update`. -/
theorem clamp_eq_min (n : UInt32) : (if 10 < n then 10 else n) = min n 10 := by
  by_cases h : n ≤ 10
  · rw [if_neg (UInt32.not_lt.mpr h)]
    exact (if_pos h).symm
  · rw [if_pos (UInt32.not_le.mp h)]
    exact (if_neg h).symm

/-- Where `loop()` may run a block, the block is a step. -/
theorem step_of_exec {b : LoopCode F} {m : Common F} {l : LoopOwn F}
    (h : LoopCode.enabled l b = true) :
    ∃ es, step b.action (shared m l) =
      .ok (shared (b.block.exec (m, l)).1 (b.block.exec (m, l)).2, es) := by
  obtain ⟨imu, phase, pending, ticks, hold, target, gzC, newYaw, vrOut, cur, yaw, vr⟩ := l
  cases b with
  | switch vrCmd =>
    obtain rfl : phase = .idle := of_decide_eq_true h
    refine ⟨[], ?_⟩
    rw [LoopCode.block, LoopCode.action, shared, step, switchYawHold]
    split_ifs <;> rfl
  | claim vrCmd =>
    obtain rfl : phase = .idle := of_decide_eq_true h
    rw [LoopCode.action, shared, step, claimTicks, ← clamp_eq_min]
    exact ⟨_, rfl⟩
  | readHeading c buf =>
    obtain rfl : phase = .head c := of_decide_eq_true h
    exact ⟨_, rfl⟩
  | writeHeading c next =>
    obtain rfl : phase = .window c next := of_decide_eq_true h
    exact ⟨_, rfl⟩
  | writeRotation c yaw =>
    obtain rfl : phase = .drive c yaw := of_decide_eq_true h
    obtain ⟨vrCmd, _ | _, target', ticks', processed⟩ := c <;> exact ⟨_, rfl⟩
  | readYaw =>
    obtain rfl : phase = .idle := of_decide_eq_true h
    exact ⟨_, rfl⟩
  | readMonitor =>
    obtain rfl : phase = .idle := of_decide_eq_true h
    exact ⟨_, rfl⟩

/-- The variables as the sections share them, of all threads. -/
def view (s : Whole Thread (Common F) (Own F)) : Shared F := shared s.mem (s.own .loop)

/-- A block that runs at once is its section, if it has one. -/
theorem runSteps_of_whole {t : Thread} {b : Code F t} {s : Whole Thread (Common F) (Own F)}
    (h : program.enabled t b (s.own t) = true) :
    ∃ rs, runSteps (actionsOf ⟨t, b⟩) (view s) = .ok rs ∧
      Machine.final (view s) rs = view (program.whole t b s) := by
  have hframe : ∀ t' ≠ Thread.loop, ∀ b' : Code F t',
      view (program.whole t' b' s) = shared (program.whole t' b' s).mem (s.own .loop) :=
    fun t' ht b' => congrArg (shared _) (program.whole_own_of_ne (Ne.symm ht) b' s)
  cases t with
  | timer =>
    rw [hframe .timer nofun]
    exact ⟨_, Machine.run_cons_eq_ok.mpr ⟨_, [], rfl, rfl, rfl⟩, rfl⟩
  | loop =>
    obtain ⟨es, hstep⟩ := step_of_exec (m := s.mem) h
    refine ⟨_, Machine.run_cons_eq_ok.mpr ⟨_, [], hstep, rfl, rfl⟩, ?_⟩
    rw [Machine.final_cons, view, System.whole_own_self]
    rfl
  | task n =>
    rw [hframe (.task n) nofun]
    cases b with
    | getSnapshot => exact ⟨[], rfl, rfl⟩
    | resetYaw => exact ⟨_, Machine.run_cons_eq_ok.mpr ⟨_, [], rfl, rfl, rfl⟩, rfl⟩

/-- A block that runs at once takes one snapshot of `g_imu` as it is, or none. -/
theorem snapshots_of_whole (t : Thread) (b : Code F t) (s : Whole Thread (Common F) (Own F))
    (n : ℕ) :
    snapshots (program.whole t b s).own n = snapshots s.own n ∨
      snapshots (program.whole t b s).own n = snapshots s.own n ++ [s.mem.gImu] := by
  by_cases ht : t = .task n
  · subst ht
    rw [snapshots, System.whole_own_self]
    cases b with
    | getSnapshot => exact .inr rfl
    | resetYaw => exact .inl rfl
  · rw [snapshots, System.whole_own_of_ne _ (Ne.symm ht)]
    exact .inl rfl

/-! ### Runs -/

/-- Snapshots of `g_imu` at places of a run, the earlier ones first. -/
def SnapshotsAlong (s₀ : Shared F) (rs : List (Shared F × List (Event F)))
    (xs : List (IMUSnapshot F)) : Prop :=
  ∃ ks : List ℕ, ks.Pairwise (· ≤ ·) ∧ (∀ k ∈ ks, k ≤ rs.length) ∧
    xs = ks.map fun k => (Machine.final s₀ (rs.take k)).imu.gImu

omit [Field F] [LinearOrder F] [IsStrictOrderedRing F] [FloorRing F] in
theorem SnapshotsAlong.append {s₀ : Shared F} {rs : List (Shared F × List (Event F))}
    {xs : List (IMUSnapshot F)} (h : SnapshotsAlong s₀ rs xs)
    (rs' : List (Shared F × List (Event F))) : SnapshotsAlong s₀ (rs ++ rs') xs := by
  obtain ⟨ks, hsorted, hle, rfl⟩ := h
  refine ⟨ks, hsorted, fun k hk => ?_, List.map_congr_left fun k hk => ?_⟩
  · rw [List.length_append]
    exact Nat.le_add_right_of_le (hle k hk)
  · rw [List.take_append_of_le_length (hle k hk)]

omit [Field F] [LinearOrder F] [IsStrictOrderedRing F] [FloorRing F] in
theorem SnapshotsAlong.concat {s₀ : Shared F} {rs : List (Shared F × List (Event F))}
    {xs : List (IMUSnapshot F)} (h : SnapshotsAlong s₀ rs xs) :
    SnapshotsAlong s₀ rs (xs ++ [(Machine.final s₀ rs).imu.gImu]) := by
  obtain ⟨ks, hsorted, hle, rfl⟩ := h
  refine ⟨ks ++ [rs.length], ?_, ?_, ?_⟩
  · rw [List.pairwise_append]
    refine ⟨hsorted, List.pairwise_singleton _ _, fun k hk k' hk' => ?_⟩
    rw [List.mem_singleton.mp hk']
    exact hle k hk
  · rw [List.forall_mem_append, List.forall_mem_singleton]
    exact ⟨hle, le_rfl⟩
  · rw [List.map_append, List.map_singleton, List.take_length]

/-- A run of such blocks is an interleaving of the sections. -/
theorem runSteps_of_wholeRun {bs : List (Σ t, Code F t)} {s₀ s : Whole Thread (Common F) (Own F)}
    (h : WholeRun program s₀ bs s) :
    ∃ rs, runSteps (bs.flatMap actionsOf) (view s₀) = .ok rs ∧
      Machine.final (view s₀) rs = view s ∧
      ∀ n, ∃ xs, snapshots s.own n = snapshots s₀.own n ++ xs ∧
        SnapshotsAlong (view s₀) rs xs := by
  induction h with
  | nil => exact ⟨[], rfl, rfl, fun n => ⟨[], (List.append_nil _).symm, [], .nil, nofun, rfl⟩⟩
  | concat t b hrun henabled ih =>
    obtain ⟨rs, hrs, hfinal, hsnapshots⟩ := ih
    obtain ⟨rs', hrs', hfinal'⟩ := runSteps_of_whole henabled
    rw [← hfinal] at hrs' hfinal'
    refine ⟨rs ++ rs', ?_, ?_, fun n => ?_⟩
    · rw [List.flatMap_append, List.flatMap_singleton]
      exact Machine.run_append hrs hrs'
    · rw [Machine.final_append, hfinal']
    · obtain ⟨xs, hxs, halong⟩ := hsnapshots n
      obtain hsame | hmore := snapshots_of_whole t b _ n
      · exact ⟨xs, hsame.trans hxs, halong.append rs'⟩
      · have hconcat := halong.concat
        rw [hfinal] at hconcat
        exact ⟨_, by rw [hmore, hxs, List.append_assoc]; rfl, hconcat.append rs'⟩

/-- A task that is between two blocks has the same snapshots where blocks run at once. -/
theorem snapshots_of_sim {c : Config Thread (Common F) (Own F)}
    {s : Whole Thread (Common F) (Own F)} {w : ∀ t, Option (Code F t)} (h : Sim program c s w)
    {n : ℕ} (htodo : c.todo (.task n) = []) : snapshots s.own n = snapshots c.own n := by
  rw [snapshots, snapshots, ((h.stage (.task n)).own_eq htodo).2.1]

/-- The interleaving of sections that an interleaving of accesses comes down to: the blocks `bs` in
the order in which they get the lock, and the run `rs` of their sections. -/
structure Linear (gzOffset gDeadzone : F) (moves : List (Move Thread (Code F)))
    (c : Config Thread (Common F) (Own F)) (bs : List (Σ t, Code F t))
    (rs : List (Shared F × List (Event F))) : Prop where
  run_eq : runSteps (bs.flatMap actionsOf) ⟨.init gzOffset gDeadzone, .idle⟩ = .ok rs
  /-- Each thread has its blocks in its order, but for one that may still wait for the lock. -/
  blocks : ∀ t, ∃ w : Option (Code F t),
    blocksOf t (started moves) = blocksOf t bs ++ w.toList ∧ (c.todo t = [] → w = none)
  /-- While the lock is free, the common variables are the same. -/
  common_eq : c.owner = none →
    (Machine.final ⟨.init gzOffset gDeadzone, .idle⟩ rs).imu.imuTickPending =
        c.mem.imuTickPending ∧
      (Machine.final ⟨.init gzOffset gDeadzone, .idle⟩ rs).imu.gImu = c.mem.gImu
  /-- And so are all others, when `loop()` is between two blocks. -/
  loop_eq : c.owner = none → c.todo .loop = [] →
    Machine.final ⟨.init gzOffset gDeadzone, .idle⟩ rs = shared c.mem (c.own .loop)
  /-- No snapshot mixes two states, and those of a task do not go back. -/
  snapshots : ∀ n, c.todo (.task n) = [] →
    SnapshotsAlong ⟨.init gzOffset gDeadzone, .idle⟩ rs (snapshots c.own n)

/-- The simulation gives such a run. -/
theorem linear_of_sim {gzOffset gDeadzone : F} {moves : List (Move Thread (Code F))}
    {c : Config Thread (Common F) (Own F)} {bs : List (Σ t, Code F t)}
    {s : Whole Thread (Common F) (Own F)} {w : ∀ t, Option (Code F t)}
    (hwhole : WholeRun program ⟨commonInit, ownInit gzOffset gDeadzone⟩ bs s)
    (hsim : Sim program c s w)
    (hblocks : ∀ t, blocksOf t (started moves) = blocksOf t bs ++ (w t).toList) :
    ∃ rs, Linear gzOffset gDeadzone moves c bs rs ∧
      Machine.final ⟨.init gzOffset gDeadzone, .idle⟩ rs = view s := by
  obtain ⟨rs, hrs, hfinal, hsnapshots⟩ := runSteps_of_wholeRun hwhole
  have hinit : view ⟨commonInit, ownInit gzOffset gDeadzone⟩ =
      (⟨.init gzOffset gDeadzone, .idle⟩ : Shared F) := rfl
  rw [hinit] at hrs hfinal hsnapshots
  refine ⟨rs, ⟨hrs, fun t => ⟨w t, hblocks t, fun htodo => ?_⟩, fun howner => ?_,
    fun howner htodo => ?_, fun n htodo => ?_⟩, hfinal⟩
  · -- a block waits for the lock only while its thread has something to do
    exact ((hsim.stage t).own_eq htodo).1
  · rw [hfinal, ← hsim.mem_eq howner]
    exact ⟨rfl, rfl⟩
  · rw [hfinal, view, hsim.mem_eq howner, ((hsim.stage .loop).own_eq htodo).2.1]
  · obtain ⟨xs, hxs, halong⟩ := hsnapshots n
    rw [← snapshots_of_sim hsim htodo, hxs]
    exact halong

theorem exists_linear {gzOffset gDeadzone : F} {moves : List (Move Thread (Code F))}
    {c : Config Thread (Common F) (Own F)}
    (h : program.run moves (.start commonInit (ownInit gzOffset gDeadzone)) = .ok c) :
    ∃ bs rs, Linear gzOffset gDeadzone moves c bs rs := by
  obtain ⟨w, bs, s, hwhole, hsim, hblocks⟩ := exists_wholeRun h
  obtain ⟨rs, hlinear, -⟩ := linear_of_sim hwhole hsim hblocks
  exact ⟨bs, rs, hlinear⟩

/-- An interleaving that goes on comes down to one that goes on, and the new snapshots of a task are
taken there. -/
theorem exists_linear_append {gzOffset gDeadzone : F} {moves moves' : List (Move Thread (Code F))}
    {c c' : Config Thread (Common F) (Own F)}
    (h : program.run moves (.start commonInit (ownInit gzOffset gDeadzone)) = .ok c)
    (h' : program.run moves' c = .ok c') :
    ∃ bs rs bs' rs', Linear gzOffset gDeadzone moves c bs rs ∧
      Linear gzOffset gDeadzone (moves ++ moves') c' (bs ++ bs') (rs ++ rs') ∧
      ∀ n, c.todo (.task n) = [] → c'.todo (.task n) = [] →
        ∃ xs, snapshots c'.own n = snapshots c.own n ++ xs ∧
          SnapshotsAlong (Machine.final ⟨.init gzOffset gDeadzone, .idle⟩ rs) rs' xs := by
  obtain ⟨w, bs, s, hwhole, hsim, hblocks⟩ := exists_wholeRun h
  obtain ⟨w', bs', s', hwhole', hsim', hblocks'⟩ := hsim.run h'
  obtain ⟨rs, hlinear, hfinal⟩ := linear_of_sim hwhole hsim hblocks
  obtain ⟨rs', hrs', -, hsnapshots⟩ := runSteps_of_wholeRun hwhole'
  rw [← hfinal] at hrs' hsnapshots
  have hblocks'' : ∀ t, blocksOf t (started (moves ++ moves')) =
      blocksOf t (bs ++ bs') ++ (w' t).toList := fun t => by
    rw [started_append, blocksOf_append, hblocks, List.append_assoc, hblocks', blocksOf_append,
      List.append_assoc]
  obtain ⟨rs₂, hlinear', -⟩ := linear_of_sim (hwhole.append hwhole') hsim' hblocks''
  -- the run of all blocks is that of the first, and then that of the others
  have hrun := Machine.run_append hlinear.run_eq hrs'
  rw [← List.flatMap_append] at hrun
  obtain rfl : rs₂ = rs ++ rs' := Except.ok.inj (hlinear'.run_eq.symm.trans hrun)
  refine ⟨bs, rs, bs', rs', hlinear, hlinear', fun n htodo htodo' => ?_⟩
  obtain ⟨xs, hxs, halong⟩ := hsnapshots n
  rw [snapshots_of_sim hsim htodo, snapshots_of_sim hsim' htodo'] at hxs
  exact ⟨xs, hxs, halong⟩

/-- Accesses interleave as sections do. However the single accesses of the interrupt, of `loop()`
and of the tasks interleave, none of them touches the common variables without the lock, and some
thread can go on as long as one has something to do. The run leaves what an interleaving of whole
sections leaves, and every snapshot is `g_imu` between two of them. -/
theorem accesses_run {gzOffset gDeadzone : F} {moves : List (Move Thread (Code F))}
    {c : Config Thread (Common F) (Own F)}
    (h : program.run moves (.start commonInit (ownInit gzOffset gDeadzone)) = .ok c) :
    (∀ m, program.move m c ≠ .error .race) ∧
      (∀ t, c.todo t ≠ [] → ∃ t' c', program.move (.go t') c = .ok c') ∧
      ∃ bs rs, Linear gzOffset gDeadzone moves c bs rs := by
  obtain ⟨w, bs, s, -, hsim, -⟩ := exists_wholeRun h
  exact ⟨hsim.ne_race, fun t htodo => hsim.exists_move htodo, exists_linear h⟩

end

/-- A tick that is counted, claimed, read and written, while a task asks for a snapshot after the
interrupt has the lock, and gets it at the end. -/
def contended : List (Move Thread (Code ℚ)) :=
  .start .timer () :: .go .timer :: .start (.task 0) .getSnapshot :: .start .loop (.claim 30) ::
    [List.replicate 3 (.go .timer), List.replicate 9 (.go .loop),
      .start .loop (.readHeading ⟨30, false, 0, 1, 1⟩ (.ofGz 0x7F 0xFF)) ::
        List.replicate 6 (.go .loop),
      .start .loop (.writeHeading ⟨30, false, 0, 0, 1⟩
        (nextSnapshot (.init 0 0) (.ofGz 0x7F 0xFF))) :: List.replicate 9 (.go .loop),
      List.replicate 8 (.go (.task 0))].flatten

/-- The run, to its end. -/
theorem contended_run :
    ∃ c, program.run contended (.start commonInit (ownInit 0 0)) = .ok c ∧ c.owner = none ∧
      c.todo .timer = [] ∧ c.todo .loop = [] ∧ c.todo (.task 0) = [] := by
  have hcheck : (match program.run contended (.start commonInit (ownInit 0 0)) with
      | .ok c => decide (c.owner = none ∧ (c.todo .timer).isEmpty ∧ (c.todo .loop).isEmpty ∧
          (c.todo (.task 0)).isEmpty)
      | .error _ => false) = true := by
    decide +kernel
  split at hcheck
  next c hc =>
    obtain ⟨howner, htimer, hloop, htask⟩ := of_decide_eq_true hcheck
    exact ⟨c, hc, howner, List.isEmpty_iff.mp htimer, List.isEmpty_iff.mp hloop,
      List.isEmpty_iff.mp htask⟩
  · cases hcheck

/-- It comes down to an interleaving of the sections. -/
theorem accesses_run_contended :
    ∃ c, program.run contended (.start commonInit (ownInit 0 0)) = .ok c ∧
      (∀ m, program.move m c ≠ .error .race) ∧
      ∃ bs rs, Linear (F := ℚ) 0 0 contended c bs rs := by
  obtain ⟨c, hc, -⟩ := contended_run
  obtain ⟨hrace, -, hlinear⟩ := accesses_run hc
  exact ⟨c, hc, hrace, hlinear⟩

end Interleaving
