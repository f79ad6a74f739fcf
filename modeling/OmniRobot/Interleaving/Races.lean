import OmniRobot.Interleaving.Accesses
import OmniRobot.Interleaving.Heading

/-!
# What the lock protects

Two results about single accesses, without mention of the sections. The increment in the interrupt
and the decrement in `imu_update` are loads and stores of one counter, so that without the lock
ticks could be lost. `imu_update` writes the five values of `g_imu` one by one and a task reads
them one by one, so that without the lock a snapshot could mix two of them.

## Main results

* `conserved_run`: the ticks that come are read, still to be read by a call, or pending;
* `ticks_accesses`: this holds of the accesses;
* `untorn_run`: the values of `g_imu` are those of one burst;
* `snapshots_accesses`: so are those of every snapshot.
-/

namespace Interleaving

open Locking

/-- The bursts that sections read. -/
def readBy (actions : List Action) : List Burst :=
  actions.filterMap fun a => match a with
    | .readHeading buf => some buf
    | _ => none

/-- The ticks that `imu_update` has claimed and not yet begun to process. -/
def Phase.left {F : Type} : Phase F → ℕ
  | .idle => 0
  | .head c | .window c _ | .drive c _ => c.ticksToProcess

/-- `imu_update` is in its loop only as long as a tick is left. -/
def Phase.Open {F : Type} : Phase F → Prop
  | .head c => c.ticksToProcess ≠ 0
  | _ => True

theorem left_resume {F : Type} (c : Call F) : c.resume.1.left = c.ticksToProcess := by
  unfold Call.resume
  split_ifs with h
  · exact h.symm
  · rfl

theorem open_resume {F : Type} (c : Call F) : c.resume.1.Open := by
  unfold Call.resume
  split_ifs with h
  · trivial
  · exact h

section

variable {F : Type} [Field F] [LinearOrder F] [IsStrictOrderedRing F] [FloorRing F]

/-! ### Ticks -/

/-- What one section does to the ticks. -/
theorem conserved_step {a : Action} {s : Shared F} {r : Shared F × List (Event F)}
    (hopen : s.phase.Open)
    (hcount : s.imu.imuTickPending.toNat + [a].count .timer < 2 ^ 32) (hstep : step a s = .ok r) :
    r.1.phase.Open ∧
      r.1.imu.imuTickPending.toNat ≤ s.imu.imuTickPending.toNat + [a].count .timer ∧
      (readBy [a]).length + r.1.phase.left + r.1.imu.imuTickPending.toNat =
        s.phase.left + s.imu.imuTickPending.toNat + [a].count .timer := by
  cases steps_of_step hstep with
  | timer imu phase =>
    have hpending : (onImuTimer imu).imuTickPending.toNat = imu.imuTickPending.toNat + 1 := by
      rw [onImuTimer, UInt32.toNat_add]
      exact Nat.mod_eq_of_lt hcount
    refine ⟨hopen, hpending.le, ?_⟩
    change 0 + phase.left + (onImuTimer imu).imuTickPending.toNat = _
    rw [hpending, Nat.zero_add, ← Nat.add_assoc]
    rfl
  | switch vrCmd imu =>
    have hpending : (switchYawHold vrCmd imu).imuTickPending = imu.imuTickPending := by
      unfold switchYawHold
      split_ifs <;> rfl
    refine ⟨trivial, ?_, ?_⟩
    · rw [hpending]
      exact Nat.le_add_right _ _
    · rw [hpending]
      rfl
  | claim vrCmd imu c hc =>
    obtain ⟨-, -, hsum⟩ := claimTicks_spec imu
    have hleft : c.resume.1.left = (claimTicks imu).1 := by rw [left_resume, hc]
    refine ⟨open_resume c, ?_, ?_⟩
    · exact (Nat.le_add_left _ _).trans hsum.le
    · rw [hleft]
      change 0 + (claimTicks imu).1 + (claimTicks imu).2.imuTickPending.toNat =
        0 + imu.imuTickPending.toNat + 0
      rw [Nat.zero_add, hsum, Nat.zero_add, Nat.add_zero]
  | readHeading buf imu c =>
    have hne : c.ticksToProcess ≠ 0 := hopen
    refine ⟨trivial, Nat.le_add_right _ _, ?_⟩
    change 1 + (c.ticksToProcess - 1) + imu.imuTickPending.toNat =
      c.ticksToProcess + imu.imuTickPending.toNat + 0
    omega
  | writeRotation imu c newYaw =>
    have hpending : (c.writeRotation newYaw imu).imuTickPending = imu.imuTickPending := by
      unfold Call.writeRotation
      split_ifs <;> rfl
    refine ⟨open_resume c, ?_, ?_⟩
    · rw [hpending]
      exact Nat.le_add_right _ _
    · rw [hpending, left_resume]
      exact congrArg (· + _) (Nat.zero_add _)
  | _ => exact ⟨hopen, Nat.le_add_right _ _, congrArg (· + _) (Nat.zero_add _)⟩

theorem readBy_cons (a : Action) (actions : List Action) :
    readBy (a :: actions) = readBy [a] ++ readBy actions :=
  List.filterMap_append (l := [a])

/-- The ticks that come in a run are read, left to a call, or pending. -/
theorem conserved_run {actions : List Action} {s : Shared F}
    {rs : List (Shared F × List (Event F))} (hopen : s.phase.Open)
    (hcount : s.imu.imuTickPending.toNat + actions.count .timer < 2 ^ 32)
    (hrun : runSteps actions s = .ok rs) :
    (readBy actions).length + (Machine.final s rs).phase.left +
        (Machine.final s rs).imu.imuTickPending.toNat =
      s.phase.left + s.imu.imuTickPending.toNat + actions.count .timer := by
  induction actions generalizing s rs with
  | nil =>
    cases hrun
    exact congrArg (· + _) (Nat.zero_add _)
  | cons a actions ih =>
    obtain ⟨r, rest, hstep, hrest, rfl⟩ := Machine.run_cons_eq_ok.mp hrun
    have hsplit : ([a] ++ actions).count .timer = [a].count .timer + actions.count .timer :=
      List.count_append
    rw [List.singleton_append] at hsplit
    rw [hsplit] at hcount ⊢
    obtain ⟨hopen', hle, hone⟩ := conserved_step hopen (by omega) hstep
    have hrec := ih hopen' (by omega) hrest
    rw [readBy_cons, List.length_append, Machine.final_cons]
    omega

/-- The burst that a block of `loop()` reads. -/
def LoopCode.burst? : LoopCode F → Option Burst
  | .readHeading _ buf => some buf
  | _ => none

/-- The bursts that an interleaving reads, or waits for the lock to integrate. -/
def burstsRead (moves : List (Move Thread (Code F))) : List Burst :=
  (blocksOf .loop (started moves)).filterMap LoopCode.burst?

omit [Field F] [LinearOrder F] [IsStrictOrderedRing F] [FloorRing F] in
/-- The sections of the interrupts are the blocks of the interrupt. -/
theorem count_timer_actionsOf (bs : List (Σ t, Code F t)) :
    (bs.flatMap actionsOf).count .timer = (blocksOf .timer bs).length := by
  induction bs with
  | nil => rfl
  | cons x bs ih =>
    rw [List.flatMap_cons, List.count_append, ih, ← List.singleton_append, blocksOf_append,
      List.length_append]
    congr 1
    obtain ⟨t, b⟩ := x
    cases t with
    | timer => rfl
    | loop => cases b <;> rfl
    | task n => cases b <;> rfl

omit [Field F] [LinearOrder F] [IsStrictOrderedRing F] [FloorRing F] in
/-- The bursts that the sections read are those of the blocks of `loop()`. -/
theorem readBy_actionsOf (bs : List (Σ t, Code F t)) :
    readBy (bs.flatMap actionsOf) = (blocksOf .loop bs).filterMap LoopCode.burst? := by
  induction bs with
  | nil => rfl
  | cons x bs ih =>
    rw [List.flatMap_cons, readBy, List.filterMap_append, ← readBy, ← readBy, ih,
      ← List.singleton_append, blocksOf_append, List.filterMap_append]
    congr 1
    obtain ⟨t, b⟩ := x
    cases t with
    | timer => rfl
    | loop => cases b <;> rfl
    | task n => cases b <;> rfl

/-- No tick is lost, and none is counted twice. However the accesses interleave, as long as fewer
than 2 ^ 32 interrupts have come: while the lock is free, no interrupt is under way and `loop()` is
between two blocks, the interrupts are the bursts read, the ticks that the open call has claimed
and has not begun to process, and those pending. -/
theorem ticks_accesses {gzOffset gDeadzone : F} {moves : List (Move Thread (Code F))}
    {c : Config Thread (Common F) (Own F)}
    (h : program.run moves (.start commonInit (ownInit gzOffset gDeadzone)) = .ok c)
    (hcount : (blocksOf .timer (started moves)).length < 2 ^ 32) (howner : c.owner = none)
    (htimer : c.todo .timer = []) (hloop : c.todo .loop = []) :
    (blocksOf .timer (started moves)).length =
      (burstsRead moves).length + (shared c.mem (c.own .loop)).phase.left +
        c.mem.imuTickPending.toNat := by
  obtain ⟨bs, rs, hlinear⟩ := exists_linear h
  -- neither the interrupt nor `loop()` waits for the lock
  have hblocks : ∀ t, c.todo t = [] → blocksOf t (started moves) = blocksOf t bs := by
    intro t htodo
    obtain ⟨w, hw, hnone⟩ := hlinear.blocks t
    rw [hw, hnone htodo, Option.toList_none, List.append_nil]
  rw [hblocks .timer htimer, ← count_timer_actionsOf] at hcount ⊢
  have hrun := conserved_run (s := ⟨.init gzOffset gDeadzone, .idle⟩) trivial
    (by rw [← Nat.zero_add (List.count _ _)] at hcount; exact hcount) hlinear.run_eq
  rw [hlinear.loop_eq howner hloop] at hrun
  rw [burstsRead, hblocks .loop hloop, ← readBy_actionsOf]
  refine Eq.symm (hrun.trans ?_)
  exact Nat.zero_add _

/-- One interrupt, and one burst read. -/
theorem ticks_accesses_contended :
    ∃ c, program.run contended (.start commonInit (ownInit 0 0)) = .ok c ∧
      1 = 1 + (shared c.mem (c.own .loop)).phase.left + c.mem.imuTickPending.toNat := by
  obtain ⟨c, hc, howner, htimer, hloop, -⟩ := contended_run
  exact ⟨c, hc, ticks_accesses hc (by decide) howner htimer hloop⟩

/-! ### Snapshots -/

/-- A heading with the other values of a burst. -/
def snapshotOf (gzOffset yaw : F) (buf : Burst) : IMUSnapshot F :=
  ⟨yaw, correctedRate gzOffset buf, int16OfBytes (buf 7) (buf 6) * accelSensitivity,
    int16OfBytes (buf 9) (buf 8) * accelSensitivity,
    int16OfBytes (buf 11) (buf 10) * accelSensitivity⟩

/-- The values belong together: beside the heading, they are those of one of the bursts. -/
def OfBurst (gzOffset : F) (bufs : List Burst) (x : IMUSnapshot F) : Prop :=
  ∃ buf ∈ bufs, x = snapshotOf gzOffset x.yaw buf

/-- So they do, unless they are all 0 as before the first write. The first is a heading. -/
def Untorn (gzOffset : F) (bufs : List Burst) (x : IMUSnapshot F) : Prop :=
  |x.yaw| ≤ 180 ∧ (x = noSnapshot ∨ OfBurst gzOffset bufs x)

/-- The values that are about to be written, if some are, are those of a burst. -/
def Phase.NextOfBurst (gzOffset : F) (bufs : List Burst) : Phase F → Prop
  | .window _ next => |next.yaw| ≤ 180 ∧ OfBurst gzOffset bufs next
  | _ => True

/-- What every section keeps. Once a snapshot is written, no other values are seen. -/
structure UntornState (gzOffset : F) (bufs : List Burst) (written : Prop) (s : Shared F) :
    Prop where
  gzOffset_eq : s.imu.gzOffset = gzOffset
  gImu : Untorn gzOffset bufs s.imu.gImu
  ofBurst : written → OfBurst gzOffset bufs s.imu.gImu
  next : s.phase.NextOfBurst gzOffset bufs

omit [LinearOrder F] [IsStrictOrderedRing F] [FloorRing F] in
/-- A reset clears the heading and keeps the burst. -/
theorem OfBurst.reset {gzOffset : F} {bufs : List Burst} {x : IMUSnapshot F}
    (h : OfBurst gzOffset bufs x) : OfBurst gzOffset bufs { x with yaw := 0 } := by
  obtain ⟨buf, hbuf, hx⟩ := h
  refine ⟨buf, hbuf, ?_⟩
  rw [hx]
  rfl

omit [FloorRing F] in
theorem Untorn.reset {gzOffset : F} {bufs : List Burst} {x : IMUSnapshot F}
    (h : Untorn gzOffset bufs x) : Untorn gzOffset bufs { x with yaw := 0 } := by
  refine ⟨by simp, h.2.imp (fun hzero => ?_) OfBurst.reset⟩
  rw [hzero]
  rfl

omit [IsStrictOrderedRing F] [FloorRing F] in
theorem nextOfBurst_resume (gzOffset : F) (bufs : List Burst) (c : Call F) :
    c.resume.1.NextOfBurst gzOffset bufs := by
  unfold Call.resume
  split_ifs <;> trivial

theorem untorn_step {gzOffset : F} (hoffset : |gzOffset| ≤ 286.72) {bufs : List Burst}
    {written : Prop} {a : Action} {s : Shared F} {r : Shared F × List (Event F)}
    (ha : readBy [a] ⊆ bufs) (h : UntornState gzOffset bufs written s) (hstep : step a s = .ok r) :
    UntornState gzOffset bufs written r.1 := by
  obtain ⟨hoff, hgImu, hburst, hnext⟩ := h
  cases steps_of_step hstep with
  | timer imu phase => exact ⟨hoff, hgImu, hburst, hnext⟩
  | reset imu phase => exact ⟨hoff, hgImu.reset, fun h => (hburst h).reset, hnext⟩
  | switch vrCmd imu =>
    obtain ⟨hoff', -, hgImu', -⟩ := switchYawHold_sameHeading vrCmd imu
    exact ⟨hoff'.trans hoff, hgImu' ▸ hgImu, hgImu' ▸ hburst, trivial⟩
  | look imu => exact ⟨hoff, hgImu, hburst, trivial⟩
  | claim vrCmd imu c hc => exact ⟨hoff, hgImu, hburst, nextOfBurst_resume gzOffset bufs c⟩
  | readHeading buf imu c =>
    -- the heading is integrated from one that is a heading
    have hyaw := (integrateYaw_spec hoffset imu.gDeadzone buf hgImu.1).1
    rw [← hoff] at hyaw
    refine ⟨hoff, hgImu, hburst, hyaw, buf, ha (List.mem_singleton.mpr rfl), ?_⟩
    rw [← hoff]
    rfl
  | writeHeading imu c next => exact ⟨hoff, ⟨hnext.1, .inr hnext.2⟩, fun _ => hnext.2, trivial⟩
  | writeRotation imu c newYaw =>
    obtain ⟨hoff', -, hgImu', -⟩ := writeRotation_sameHeading c newYaw imu
    exact ⟨hoff'.trans hoff, hgImu' ▸ hgImu, hgImu' ▸ hburst, nextOfBurst_resume gzOffset bufs c⟩

/-- The write of a snapshot leaves the values of a burst. -/
theorem ofBurst_of_write {gzOffset : F} {bufs : List Burst} {written : Prop} {s : Shared F}
    {r : Shared F × List (Event F)} (h : UntornState gzOffset bufs written s)
    (hstep : step .writeHeading s = .ok r) : OfBurst gzOffset bufs r.1.imu.gImu := by
  obtain ⟨-, -, -, hnext⟩ := h
  cases steps_of_step hstep with
  | writeHeading imu c next => exact hnext.2

theorem untorn_run {gzOffset gDeadzone : F} (hoffset : |gzOffset| ≤ 286.72)
    {actions : List Action} {rs : List (Shared F × List (Event F))}
    (h : runSteps actions ⟨.init gzOffset gDeadzone, .idle⟩ = .ok rs) {k : ℕ}
    (hk : k ≤ actions.length) :
    UntornState gzOffset (readBy actions) (.writeHeading ∈ actions.take k)
      (Machine.final ⟨.init gzOffset gDeadzone, .idle⟩ (rs.take k)) := by
  have hinit : UntornState gzOffset (readBy actions) (.writeHeading ∈ actions.take 0)
      (⟨.init gzOffset gDeadzone, .idle⟩ : Shared F) :=
    ⟨rfl, ⟨abs_le.mpr ⟨by norm_num [Imu.init], by norm_num [Imu.init]⟩, .inl rfl⟩, nofun, trivial⟩
  refine Machine.run_induction (P := fun k s =>
    UntornState gzOffset (readBy actions) (.writeHeading ∈ actions.take k) s)
    (fun j a s r ha hs hstep => ?_) hinit h hk
  -- what the step reads is among what the run reads
  have hmem : a ∈ actions := List.mem_of_getElem? ha
  have hread : readBy [a] ⊆ readBy actions :=
    List.filterMap_subset _ (List.cons_subset.mpr ⟨hmem, List.nil_subset _⟩)
  have hs' := untorn_step hoffset hread hs hstep
  refine ⟨hs'.gzOffset_eq, hs'.gImu, fun hwritten => ?_, hs'.next⟩
  rw [List.take_add_one, ha, List.mem_append, Option.toList_some, List.mem_singleton] at hwritten
  rcases hwritten with hold | rfl
  · exact hs'.ofBurst hold
  · exact ofBurst_of_write hs hstep

/-- The bursts that the sections read are among those of the interleaving. -/
theorem Linear.readBy_subset {gzOffset gDeadzone : F} {moves : List (Move Thread (Code F))}
    {c : Config Thread (Common F) (Own F)} {bs : List (Σ t, Code F t)}
    {rs : List (Shared F × List (Event F))} (h : Linear gzOffset gDeadzone moves c bs rs) :
    readBy (bs.flatMap actionsOf) ⊆ burstsRead moves := by
  obtain ⟨w, hw, -⟩ := h.blocks .loop
  rw [burstsRead, hw, List.filterMap_append, ← readBy_actionsOf]
  exact List.subset_append_left _ _

/-- Between two blocks of `loop()`, a write that it has started is among the sections. -/
theorem Linear.writeHeading_mem {gzOffset gDeadzone : F} {moves : List (Move Thread (Code F))}
    {c : Config Thread (Common F) (Own F)} {bs : List (Σ t, Code F t)}
    {rs : List (Shared F × List (Event F))} (h : Linear gzOffset gDeadzone moves c bs rs)
    (hloop : c.todo .loop = []) {call : Call F} {next : IMUSnapshot F}
    (hwrite : LoopCode.writeHeading call next ∈ blocksOf .loop (started moves)) :
    .writeHeading ∈ bs.flatMap actionsOf := by
  obtain ⟨w, hw, hnone⟩ := h.blocks .loop
  rw [hw, hnone hloop, Option.toList_none, List.append_nil] at hwrite
  exact List.mem_flatMap.mpr ⟨_, mem_blocksOf hwrite, List.mem_singleton.mpr rfl⟩

/-- No snapshot is torn. However the accesses interleave, every snapshot that a task gets tells a
heading in `[-180, 180]` and the other four values of one burst that `loop()` has read, or it is all
0. From where `loop()` has written its first snapshot, those that a task gets are of a burst. -/
theorem snapshots_accesses {gzOffset gDeadzone : F} (hoffset : |gzOffset| ≤ 286.72)
    {moves : List (Move Thread (Code F))} {c : Config Thread (Common F) (Own F)}
    (h : program.run moves (.start commonInit (ownInit gzOffset gDeadzone)) = .ok c) {n : ℕ}
    (hn : c.todo (.task n) = []) :
    (∀ x ∈ snapshots c.own n, Untorn gzOffset (burstsRead moves) x) ∧
      ∀ moves' c', (∃ call next, LoopCode.writeHeading call next ∈ blocksOf .loop (started moves)) →
        c.todo .loop = [] → program.run moves' c = .ok c' → c'.todo (.task n) = [] →
        ∃ xs, snapshots c'.own n = snapshots c.own n ++ xs ∧
          ∀ x ∈ xs, |x.yaw| ≤ 180 ∧ OfBurst gzOffset (burstsRead (moves ++ moves')) x := by
  refine ⟨?_, fun moves' c' ⟨call, next, hwrite⟩ hloop h' hn' => ?_⟩
  · obtain ⟨bs, rs, hlinear⟩ := exists_linear h
    obtain ⟨ks, -, hle, hks⟩ := hlinear.snapshots n hn
    rw [hks]
    intro x hx
    obtain ⟨k, hk, rfl⟩ := List.mem_map.mp hx
    have hlength := Machine.length_of_run hlinear.run_eq
    obtain ⟨hyaw, hrest⟩ := (untorn_run hoffset hlinear.run_eq (hlength ▸ hle k hk)).gImu
    exact ⟨hyaw, hrest.imp_right fun ⟨buf, hbuf, hx⟩ => ⟨buf, hlinear.readBy_subset hbuf, hx⟩⟩
  · obtain ⟨bs, rs, bs', rs', hlinear, hlinear', hmore⟩ := exists_linear_append h h'
    obtain ⟨xs, hxs, ks, -, hle, hks⟩ := hmore n hn hn'
    refine ⟨xs, hxs, fun x hx => ?_⟩
    rw [hks] at hx
    obtain ⟨k, hk, rfl⟩ := List.mem_map.mp hx
    -- the new snapshots are taken after the sections of `moves`, where `loop()` has written
    have hlength := Machine.length_of_run hlinear.run_eq
    have hlength' := Machine.length_of_run hlinear'.run_eq
    rw [List.length_append] at hlength'
    have hstate := untorn_run hoffset hlinear'.run_eq (k := rs.length + k) (by
      have hk' := hle k hk
      omega)
    rw [List.take_length_add_append, Machine.final_append] at hstate
    have hwritten : Action.writeHeading ∈
        ((bs ++ bs').flatMap actionsOf).take (rs.length + k) := by
      rw [List.flatMap_append, hlength, List.take_length_add_append]
      exact List.mem_append_left _ (hlinear.writeHeading_mem hloop hwrite)
    obtain ⟨buf, hbuf, hx⟩ := hstate.ofBurst hwritten
    exact ⟨hstate.gImu.1, buf, hlinear'.readBy_subset hbuf, hx⟩

end

/-- Another snapshot of the task. -/
def oneMore : List (Move Thread (Code ℚ)) :=
  .start (.task 0) .getSnapshot :: List.replicate 8 (.go (.task 0))

/-- The snapshot of a task that has waited, and another one. -/
theorem snapshots_accesses_contended :
    ∃ c c', program.run contended (.start commonInit (ownInit 0 0)) = .ok c ∧
      program.run oneMore c = .ok c' ∧
      (∀ x ∈ snapshots c.own 0, Untorn 0 (burstsRead contended) x) ∧
      ∃ x, snapshots c'.own 0 = snapshots c.own 0 ++ [x] ∧
        OfBurst 0 (burstsRead (contended ++ oneMore)) x := by
  obtain ⟨c, hc, -, -, hloop, htask⟩ := contended_run
  have hcheck : (match program.run contended (.start commonInit (ownInit 0 0)) with
      | .ok c => match program.run oneMore c with
        | .ok c' => decide ((c'.todo (.task 0)).isEmpty ∧
            (snapshots c'.own 0).length = (snapshots c.own 0).length + 1)
        | .error _ => false
      | .error _ => false) = true := by
    decide +kernel
  rw [hc] at hcheck
  dsimp only at hcheck
  split at hcheck
  next c' hc' =>
    obtain ⟨htask', hlength⟩ := of_decide_eq_true hcheck
    obtain ⟨huntorn, hmore⟩ := snapshots_accesses (by norm_num) hc htask
    -- the third block of `loop()` is the write
    obtain ⟨xs, hxs, hburst⟩ := hmore oneMore c' ⟨_, _, List.mem_of_getElem? (i := 2) rfl⟩ hloop hc'
      (List.isEmpty_iff.mp htask')
    rw [hxs, List.length_append, Nat.add_left_cancel_iff, List.length_eq_one_iff] at hlength
    obtain ⟨x, rfl⟩ := hlength
    exact ⟨c, c', hc, hc', huntorn, x, hxs, (hburst x (List.mem_singleton.mpr rfl)).2⟩
  · cases hcheck

end Interleaving
