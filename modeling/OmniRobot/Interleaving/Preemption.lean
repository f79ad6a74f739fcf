import OmniRobot.Imu.Spi
import OmniRobot.Interleaving.Races

/-!
# Preempted iterations

In the model of `loop()` an iteration gets its interrupts at one place, right before the claim. In
truth they come between any two critical sections, and after the last claim of an iteration. But
they only count ticks, and only a claim looks at the count. So they may as well come later, up to
the next claim, and every preempted run is a run of the model.

## Main results

* `run_late`: interrupts pass by every section but a claim;
* `imuStage_of_run`: the preempted sections of an iteration are its IMU stage;
* `preempted_run`: preempted iterations drive what iterations of the model drive.
-/

namespace Interleaving

/-- The sections that are not those of the interrupt. -/
def ofLoop (actions : List Action) : List Action := actions.filter fun a => a ≠ .timer

theorem claim_not_mem_of_ofLoop {actions : List Action} (h : ∀ v, .claim v ∉ ofLoop actions)
    (v : ℤ) : .claim v ∉ actions :=
  fun hv => h v (List.mem_filter.mpr ⟨hv, rfl⟩)

/-- The passes neither claim ticks nor count them. -/
theorem ne_of_mem_passes {bufs : List Burst} {a : Action} (h : a ∈ passes bufs) :
    a ≠ .timer ∧ ∀ v, a ≠ .claim v := by
  obtain ⟨buf, -, hmem⟩ := List.mem_flatMap.mp h
  simp only [List.mem_cons, List.not_mem_nil, or_false] at hmem
  obtain rfl | rfl | rfl := hmem <;> exact ⟨nofun, nofun⟩

section

variable {F : Type} [Field F] [LinearOrder F] [IsStrictOrderedRing F] [FloorRing F]

/-! ### Late interrupts -/

/-- After `n` more interrupts. -/
def Shared.late (n : ℕ) (s : Shared F) : Shared F := ⟨onImuTimer^[n] s.imu, s.phase⟩

/-- A section that is not a claim goes the same way before the interrupts. -/
theorem step_late {a : Action} (hclaim : ∀ v, a ≠ .claim v) (htimer : a ≠ .timer) {n : ℕ}
    {s : Shared F} {r : Shared F × List (Event F)} (h : step a (s.late n) = .ok r) :
    ∃ r', step a s = .ok r' ∧ r.1 = r'.1.late n := by
  obtain ⟨imu, phase⟩ := s
  simp only [Shared.late, iterate_onImuTimer] at h ⊢
  cases steps_of_step h with
  | timer imu phase => exact absurd rfl htimer
  | claim v imu c hc => exact absurd rfl (hclaim v)
  | switch v imu =>
    refine ⟨_, rfl, ?_⟩
    unfold switchYawHold
    split_ifs <;> rfl
  | writeRotation imu c newYaw =>
    refine ⟨_, rfl, ?_⟩
    unfold Call.writeRotation
    split_ifs <;> rfl
  | _ => exact ⟨_, rfl, rfl⟩

/-- Interrupts pass by all sections but a claim. -/
theorem run_late {actions : List Action} (hclaim : ∀ v, .claim v ∉ actions) {n : ℕ}
    {s : Shared F} {rs : List (Shared F × List (Event F))}
    (h : runSteps actions (s.late n) = .ok rs) :
    ∃ rs', runSteps (ofLoop actions) s = .ok rs' ∧
      Machine.final (s.late n) rs = (Machine.final s rs').late (n + actions.count .timer) := by
  induction actions generalizing n s rs with
  | nil =>
    cases h
    exact ⟨[], rfl, rfl⟩
  | cons a actions ih =>
    obtain ⟨r, rest, hstep, hrest, rfl⟩ := Machine.run_cons_eq_ok.mp h
    have hclaim' : ∀ v, .claim v ∉ actions := fun v hv => hclaim v (List.mem_cons_of_mem a hv)
    rw [Machine.final_cons]
    by_cases ha : a = .timer
    · subst ha
      cases hstep
      -- one interrupt more is late
      have hmore : (⟨onImuTimer (s.late n).imu, (s.late n).phase⟩ : Shared F) =
          s.late (n + 1) := by
        rw [Shared.late, Shared.late, Function.iterate_succ_apply']
      rw [hmore] at hrest ⊢
      obtain ⟨rs', hrs', hfinal⟩ := ih hclaim' hrest
      refine ⟨rs', hrs', ?_⟩
      rw [hfinal, List.count_cons_self, Nat.add_assoc, Nat.add_comm 1]
    · obtain ⟨r', hr', hlate⟩ :=
        step_late (fun v hv => hclaim v (hv ▸ List.mem_cons_self)) ha hstep
      rw [hlate] at hrest ⊢
      obtain ⟨rs', hrs', hfinal⟩ := ih hclaim' hrest
      refine ⟨r' :: rs', ?_, ?_⟩
      · rw [ofLoop, List.filter_cons_of_pos (by simpa using ha)]
        exact Machine.run_cons_eq_ok.mpr ⟨r', rs', hr', hrs', rfl⟩
      · rw [hfinal, Machine.final_cons, List.count_cons_of_ne ha]

/-! ### An iteration -/

/-- The sections of an iteration of `loop()`, in the order of the source: the switch, the call, the
read of `yaw_angle`, and that of the monitor if it reports. -/
def imuSteps (vrCmd : ℤ) (bufs : List Burst) (reports : Bool) : List Action :=
  .switch vrCmd :: .claim vrCmd :: (passes bufs ++ .look :: if reports then [.look] else [])

/-- A call that gets to the reads after it has read as many bursts as it had ticks. -/
theorem length_of_passes {bufs : List Burst} {looks : List Action} {c : Call F} {imu : Imu F}
    {rs : List (Shared F × List (Event F))}
    (h : runSteps (passes bufs ++ .look :: looks) ⟨imu, c.resume.1⟩ = .ok rs) :
    c.ticksToProcess = bufs.length := by
  induction bufs generalizing c imu rs with
  | nil =>
    obtain ⟨r, rest, hstep, -, -⟩ := Machine.run_cons_eq_ok.mp h
    unfold Call.resume at hstep
    split_ifs at hstep with hzero
    · exact hzero
    · cases hstep
  | cons buf bufs ih =>
    obtain ⟨r, rest, hread, h₁, -⟩ := Machine.run_cons_eq_ok.mp h
    unfold Call.resume at hread
    split_ifs at hread with hzero
    · cases hread
    · cases hread
      obtain ⟨r, rest, hwrite, h₂, -⟩ := Machine.run_cons_eq_ok.mp h₁
      cases hwrite
      obtain ⟨r, rest, hrotate, h₃, -⟩ := Machine.run_cons_eq_ok.mp h₂
      cases hrotate
      have hrec := ih h₃
      rw [List.length_cons, ← hrec]
      exact (Nat.succ_pred hzero).symm

/-- The reads of `yaw_angle` and `vr_final` leave both alone. -/
theorem final_looks {looks : List Action} (hlooks : ∀ a ∈ looks, a = .look) {imu : Imu F}
    {rs : List (Shared F × List (Event F))} (h : runSteps looks ⟨imu, .idle⟩ = .ok rs) :
    Machine.final ⟨imu, .idle⟩ rs = ⟨imu, .idle⟩ := by
  induction looks generalizing rs with
  | nil =>
    cases h
    rfl
  | cons a looks ih =>
    rw [List.forall_mem_cons] at hlooks
    obtain ⟨rfl, hlooks⟩ := hlooks
    obtain ⟨r, rest, hstep, hrest, rfl⟩ := Machine.run_cons_eq_ok.mp h
    cases hstep
    rw [Machine.final_cons]
    exact ih hlooks hrest

/-- The samples that a list of bursts is the front of. -/
def samplesOf (bufs : List Burst) (k : ℕ) : Burst := bufs.getD k fun _ => 0

/-- The sections of an iteration, from the claim on, with nothing between them. -/
theorem final_call {vrCmd : ℤ} {bufs : List Burst} {looks : List Action}
    (hlooks : ∀ a ∈ looks, a = .look) {imu : Imu F} {rs : List (Shared F × List (Event F))}
    (h : runSteps (.claim vrCmd :: (passes bufs ++ .look :: looks)) ⟨imu, .idle⟩ = .ok rs) :
    (imuUpdate vrCmd (samplesOf bufs) imu).1 = bufs.length ∧
      Machine.final ⟨imu, .idle⟩ rs = ⟨(imuUpdate vrCmd (samplesOf bufs) imu).2, .idle⟩ := by
  have hlength : (imuUpdate vrCmd (samplesOf bufs) imu).1 = bufs.length := by
    obtain ⟨r, rest, hstep, hrest, -⟩ := Machine.run_cons_eq_ok.mp h
    cases hstep
    exact length_of_passes hrest
  have hbufs : (List.range bufs.length).map (samplesOf bufs) = bufs :=
    map_getD_range rfl fun _ => 0
  refine ⟨hlength, ?_⟩
  -- the call alone, and then the reads
  obtain ⟨rs₁, hrs₁, hfinal₁, -⟩ := run_imuUpdate vrCmd (samplesOf bufs) imu
  rw [callSteps, hlength, hbufs] at hrs₁
  rw [← List.cons_append] at h
  obtain ⟨rs₁', rs₂, hrs₁', hrs₂, rfl⟩ := Machine.exists_of_run_append h
  obtain rfl : rs₁ = rs₁' := Except.ok.inj (hrs₁.symm.trans hrs₁')
  rw [hfinal₁] at hrs₂
  rw [Machine.final_append, hfinal₁]
  exact final_looks (List.forall_mem_cons.mpr ⟨rfl, hlooks⟩) hrs₂

/-- The preempted sections of an iteration, after `n` interrupts that have come too late for the
iteration before, are its IMU stage after all interrupts up to the claim. The others come too late
for it. -/
theorem imuStage_of_run {actions : List Action} {vrCmd : ℤ} {bufs : List Burst} {reports : Bool}
    (horder : ofLoop actions = imuSteps vrCmd bufs reports) {n : ℕ} {imu : Imu F}
    {rs : List (Shared F × List (Event F))}
    (h : runSteps actions (Shared.late n ⟨imu, .idle⟩) = .ok rs) :
    ∃ before after, before + after = n + actions.count .timer ∧
      (imuUpdate vrCmd (samplesOf bufs)
        (onImuTimer^[before] (switchYawHold vrCmd imu))).1 = bufs.length ∧
      Machine.final (Shared.late n ⟨imu, .idle⟩) rs = Shared.late after
        ⟨(imuUpdate vrCmd (samplesOf bufs)
          (onImuTimer^[before] (switchYawHold vrCmd imu))).2, .idle⟩ := by
  -- the claim divides the sections
  obtain ⟨early, l, rfl, hearly, hl⟩ := List.filter_eq_append_iff.mp
    (show ofLoop actions = [.switch vrCmd] ++ .claim vrCmd :: (passes bufs ++ .look ::
      if reports then [.look] else []) from horder)
  obtain ⟨timers, late, rfl, htimers, -, hlate⟩ := List.filter_eq_cons_iff.mp hl
  have hfront : ofLoop (early ++ timers) = [.switch vrCmd] := by
    rw [ofLoop, List.filter_append, hearly, List.filter_eq_nil_iff.mpr htimers, List.append_nil]
  have hfrontClaim : ∀ v, .claim v ∉ ofLoop (early ++ timers) := by
    intro v
    rw [hfront]
    simp
  have hlateClaim : ∀ v, .claim v ∉ ofLoop late := by
    intro v
    rw [ofLoop, hlate]
    rw [List.mem_append, not_or]
    refine ⟨fun hv => (ne_of_mem_passes hv).2 v rfl, ?_⟩
    cases reports <;> simp
  rw [← List.append_assoc] at h ⊢
  obtain ⟨rs₁, rs₂, h₁, h₂, rfl⟩ := Machine.exists_of_run_append h
  obtain ⟨rs₁', h₁', hfinal₁⟩ := run_late (claim_not_mem_of_ofLoop hfrontClaim) h₁
  rw [hfront] at h₁'
  cases h₁'
  rw [hfinal₁] at h₂
  -- the call, without the interrupts that come after its claim
  obtain ⟨r, rest, hstep, hrest, rfl⟩ := Machine.run_cons_eq_ok.mp h₂
  obtain ⟨rs₂', h₂', hfinal₂⟩ :=
    run_late (n := 0) (s := r.1) (claim_not_mem_of_ofLoop hlateClaim) hrest
  rw [ofLoop, hlate] at h₂'
  obtain ⟨hlength, hcall⟩ := final_call (by cases reports <;> simp)
    (Machine.run_cons_eq_ok.mpr ⟨r, rs₂', hstep, h₂', rfl⟩)
  rw [Machine.final_cons] at hcall
  rw [hcall, Nat.zero_add] at hfinal₂
  refine ⟨n + (early ++ timers).count .timer, late.count .timer, ?_, hlength, ?_⟩
  · have hcount : ((early ++ timers) ++ .claim vrCmd :: late).count .timer =
        (early ++ timers).count .timer + late.count .timer := List.count_append
    rw [hcount, Nat.add_assoc]
  · rw [Machine.final_append, hfinal₁]
    exact (Machine.final_cons _ r rest).trans hfinal₂

/-! ### Runs -/

/-- After `n` more interrupts. -/
def lateState (n : ℕ) (s : LoopState F) : LoopState F := { s with imu := onImuTimer^[n] s.imu }

/-- An iteration after `imu_update` has returned, which leaves `imu` and returns `ticks`. -/
def finish (trig : Trig F) (i : Input) (s : LoopState F) (decodes : List Crsf.Decode) (ticks : ℕ)
    (imu : Imu F) : LoopState F × Observation :=
  let s := lockHeadless { s with imu := imu, monitor := s.monitor.update ticks i.nowUs i.nowMs }
  let (vx, vy, vr) := driveCommand trig s
  ({ s with duties := driveOmni s.duties vx vy vr }, ⟨vx, vy, vr, decodes⟩)

/-- An iteration of the model ends like this. -/
theorem loop_eq_finish (trig : Trig F) {i : Input} {s s' : LoopState F}
    {decodes : List Crsf.Decode} (h : receive i (prepare i s) = .ok (s', decodes)) :
    loop trig i s = .ok (finish trig i s' decodes
      (imuUpdate s'.pilot.vrCmd i.samples
        (onImuTimer^[i.ticks] (switchYawHold s'.pilot.vrCmd s'.imu))).1
      (imuUpdate s'.pilot.vrCmd i.samples
        (onImuTimer^[i.ticks] (switchYawHold s'.pilot.vrCmd s'.imu))).2) := by
  rw [loop, h]
  rfl

/-- An iteration of `loop()` with interrupts between any two of its sections, and of those before
the first of them: `actions` are all sections that run from the end of the iteration before. What
is not about the variables of `imu.cpp` is as in `loop`. The ticks and the samples of `i` are not
used, and `imu_update` returns how many bursts it has read. -/
inductive Preempted (trig : Trig F) (i : Input) (actions : List Action) (s : LoopState F) :
    LoopState F × Observation → Prop where
  | intro {s' : LoopState F} {decodes : List Crsf.Decode} {bufs : List Burst} {reports : Bool}
      {rs : List (Shared F × List (Event F))} {imu : Imu F} :
      receive i (prepare i s) = .ok (s', decodes) →
      ofLoop actions = imuSteps s'.pilot.vrCmd bufs reports →
      runSteps actions ⟨s'.imu, .idle⟩ = .ok rs →
      (Machine.final ⟨s'.imu, .idle⟩ rs).imu = imu →
      Preempted trig i actions s (finish trig i s' decodes bufs.length imu)

omit [Field F] [LinearOrder F] [IsStrictOrderedRing F] [FloorRing F] in
/-- The RC stage does not look at the IMU. -/
theorem receive_late {i : Input} {n : ℕ} {s s' : LoopState F} {decodes : List Crsf.Decode}
    (h : receive i (prepare i (lateState n s)) = .ok (s', decodes)) :
    ∃ s'', s' = lateState n s'' ∧ receive i (prepare i s) = .ok (s'', decodes) := by
  unfold receive at h ⊢
  split_ifs at h ⊢ with hserial
  · cases h
    exact ⟨_, rfl, rfl⟩
  · have hparser : (prepare i (lateState n s)).parser = (prepare i s).parser ∧
        (prepare i (lateState n s)).rc = (prepare i s).rc := ⟨rfl, rfl⟩
    rw [hparser.1, hparser.2] at h
    cases hparse : Crsf.crsfParse rcInputMaxChannels i.serial.val (prepare i s).parser
      (prepare i s).rc with
    | error e =>
      rw [hparse] at h
      cases h
    | ok p =>
      rw [hparse] at h
      cases h
      exact ⟨_, rfl, rfl⟩

/-- Late interrupts do not show in what is driven. -/
theorem finish_late (trig : Trig F) (i : Input) (n m : ℕ) (s : LoopState F)
    (decodes : List Crsf.Decode) (ticks : ℕ) (imu : Imu F) :
    finish trig i (lateState n s) decodes ticks (onImuTimer^[m] imu) =
      (lateState m (finish trig i s decodes ticks imu).1,
        (finish trig i s decodes ticks imu).2) := by
  simp only [finish, lateState, lockHeadless, iterate_onImuTimer]
  split_ifs <;> rfl

theorem readBy_append (xs ys : List Action) : readBy (xs ++ ys) = readBy xs ++ readBy ys :=
  List.filterMap_append

/-- An interrupt reads no burst. -/
theorem readBy_ofLoop (actions : List Action) : readBy (ofLoop actions) = readBy actions := by
  induction actions with
  | nil => rfl
  | cons a actions ih =>
    rw [readBy_cons, ← ih]
    cases a <;> rfl

theorem readBy_imuSteps (vrCmd : ℤ) (bufs : List Burst) (reports : Bool) :
    readBy (imuSteps vrCmd bufs reports) = bufs := by
  have hpasses : readBy (passes bufs) = bufs := by
    induction bufs with
    | nil => rfl
    | cons buf bufs ih =>
      rw [passes, List.flatMap_cons, ← passes, readBy_append, ih]
      rfl
  have hlooks : readBy (.look :: if reports then [.look] else []) = [] := by
    cases reports <;> rfl
  have hsteps : readBy (imuSteps vrCmd bufs reports) =
      readBy (passes bufs ++ .look :: if reports then [.look] else []) := rfl
  rw [hsteps, readBy_append, hpasses, hlooks, List.append_nil]

/-- What the iteration gets in the model: the same from outside, and the bursts that its sections
read, one after the other. -/
structure Sequential (i : Input) (actions : List Action) (i' : Input) : Prop where
  same : i' = { i with ticks := i'.ticks, samples := i'.samples }
  samples_eq : ∀ k buf, (readBy actions)[k]? = some buf → i'.samples k = buf

/-- A preempted iteration is an iteration of the model, up to the interrupts that have come after
its claim. -/
theorem loop_of_preempted {trig : Trig F} {i : Input} {actions : List Action} {n : ℕ}
    {s : LoopState F} {r : LoopState F × Observation}
    (h : Preempted trig i actions (lateState n s) r) :
    ∃ i' r' m, Sequential i actions i' ∧ loop trig i' s = .ok r' ∧ r = (lateState m r'.1, r'.2) ∧
      i'.ticks + m = n + actions.count .timer := by
  cases h with
  | @intro s' decodes bufs reports rs imu hreceive horder hrun himu =>
    obtain ⟨s'', rfl, hreceive'⟩ := receive_late hreceive
    obtain ⟨before, after, hsum, hlength, hfinal⟩ := imuStage_of_run horder hrun
    have hread : readBy actions = bufs := by rw [← readBy_ofLoop, horder, readBy_imuSteps]
    have hloop := loop_eq_finish trig (i := { i with ticks := before, samples := samplesOf bufs })
      hreceive'
    refine ⟨_, _, after, ⟨rfl, fun k buf hk => ?_⟩, hloop, ?_, hsum⟩
    · rw [hread] at hk
      change bufs.getD k _ = buf
      rw [List.getD_eq_getElem?_getD, hk, Option.getD_some]
    · have himu' : imu = onImuTimer^[after] (imuUpdate s''.pilot.vrCmd (samplesOf bufs)
          (onImuTimer^[before] (switchYawHold s''.pilot.vrCmd s''.imu))).2 :=
        himu.symm.trans (congrArg Shared.imu hfinal)
      rw [himu', finish_late, ← hlength]
      rfl

/-- Preempted iterations, one after the other. -/
inductive PreemptedRun (trig : Trig F) : List (Input × List Action) → LoopState F →
    List (LoopState F × Observation) → Prop where
  | nil (s : LoopState F) : PreemptedRun trig [] s []
  | cons {i : Input} {actions : List Action} {its : List (Input × List Action)} {s : LoopState F}
      {r : LoopState F × Observation} {rs : List (LoopState F × Observation)} :
      Preempted trig i actions s r → PreemptedRun trig its r.1 rs →
      PreemptedRun trig ((i, actions) :: its) s (r :: rs)

theorem runLoop_of_preempted {trig : Trig F} {its : List (Input × List Action)} {n : ℕ}
    {s : LoopState F} {rs : List (LoopState F × Observation)}
    (h : PreemptedRun trig its (lateState n s) rs) :
    ∃ inputs rs' m, runLoop trig inputs s = .ok rs' ∧
      List.Forall₂ (fun it i' => Sequential it.1 it.2 i') its inputs ∧
      List.Forall₂ (fun r r' => r.2 = r'.2 ∧ ∃ m, r.1 = lateState m r'.1) rs rs' ∧
      (inputs.map Input.ticks).sum + m = n + (its.map fun it => it.2.count .timer).sum ∧
      Machine.final (lateState n s) rs = lateState m (Machine.final s rs') := by
  generalize hs : lateState n s = s₀ at h
  induction h generalizing n s with
  | nil => exact ⟨[], [], n, rfl, .nil, .nil, by simp, hs.symm⟩
  | cons hfirst hrest ih =>
    subst hs
    obtain ⟨i', r', m, hseq, hloop, rfl, hsum⟩ := loop_of_preempted hfirst
    obtain ⟨inputs, rs', m', hrun, hinputs, hsame, hticks, hfinal⟩ := ih rfl
    refine ⟨i' :: inputs, r' :: rs', m', Machine.run_cons_eq_ok.mpr ⟨r', rs', hloop, hrun, rfl⟩,
      .cons hseq hinputs, .cons ⟨rfl, m, rfl⟩ hsame, ?_, ?_⟩
    · simp only [List.map_cons, List.sum_cons]
      omega
    · rw [Machine.final_cons, Machine.final_cons]
      exact hfinal

/-- The sections of an iteration whose `n` interrupts all come right before the claim. -/
def loopSections (vrCmd : ℤ) (samples : ℕ → Burst) (n ticks : ℕ) : List Action :=
  .switch vrCmd :: (List.replicate n .timer ++ (callSteps vrCmd samples ticks ++ [.look]))

theorem ofLoop_loopSections (vrCmd : ℤ) (samples : ℕ → Burst) (n ticks : ℕ) :
    ofLoop (loopSections vrCmd samples n ticks) =
      imuSteps vrCmd ((List.range ticks).map samples) false := by
  have hpasses : ∀ a ∈ passes ((List.range ticks).map samples), ¬ a = .timer :=
    fun a ha => (ne_of_mem_passes ha).1
  simpa [ofLoop, loopSections, callSteps, imuSteps] using hpasses

theorem count_loopSections (vrCmd : ℤ) (samples : ℕ → Burst) (n ticks : ℕ) :
    (loopSections vrCmd samples n ticks).count .timer = n := by
  have hpasses : (passes ((List.range ticks).map samples)).count .timer = 0 :=
    List.count_eq_zero_of_not_mem fun h => (ne_of_mem_passes h).1 rfl
  simp [loopSections, callSteps, hpasses]

/-- These sections are the IMU stage of the model. -/
theorem run_loopSections (vrCmd : ℤ) (samples : ℕ → Burst) (n : ℕ) (imu : Imu F) {ticks : ℕ}
    {imu' : Imu F}
    (h : imuUpdate vrCmd samples (onImuTimer^[n] (switchYawHold vrCmd imu)) = (ticks, imu')) :
    ∃ rs, runSteps (loopSections vrCmd samples n ticks) ⟨imu, .idle⟩ = .ok rs ∧
      Machine.final ⟨imu, .idle⟩ rs = ⟨imu', .idle⟩ := by
  obtain ⟨rs₁, hrs₁, hfinal₁⟩ := run_timers n (⟨switchYawHold vrCmd imu, .idle⟩ : Shared F)
  obtain ⟨rs₂, hrs₂, hfinal₂, -⟩ :=
    run_imuUpdate vrCmd samples (onImuTimer^[n] (switchYawHold vrCmd imu))
  rw [h] at hrs₂ hfinal₂
  have hlook : runSteps [.look] (⟨imu', .idle⟩ : Shared F) =
      .ok [(⟨imu', .idle⟩, [.looked imu'.yawAngle imu'.vrFinal])] := rfl
  have hcall := Machine.run_append hrs₂ (hfinal₂ ▸ hlook)
  refine ⟨_, Machine.run_cons_eq_ok.mpr ⟨(⟨switchYawHold vrCmd imu, .idle⟩, []), _, rfl,
    Machine.run_append hrs₁ (hfinal₁ ▸ hcall), rfl⟩, ?_⟩
  rw [Machine.final_cons, Machine.final_append, hfinal₁, Machine.final_append, Machine.final_cons,
    Machine.final_nil]
  exact hfinal₂

/-- An iteration of the model is a preempted one, with all interrupts before the claim. -/
theorem exists_preempted {trig : Trig F} {i : Input} {s : LoopState F}
    {r : LoopState F × Observation} (h : loop trig i s = .ok r) :
    ∃ actions, Preempted trig i actions s r ∧ actions.count .timer = i.ticks := by
  cases hreceive : receive i (prepare i s) with
  | error e =>
    rw [loop, hreceive] at h
    cases h
  | ok p =>
    obtain ⟨s', decodes⟩ := p
    rw [loop_eq_finish trig hreceive] at h
    cases h
    cases hupdate : imuUpdate s'.pilot.vrCmd i.samples
      (onImuTimer^[i.ticks] (switchYawHold s'.pilot.vrCmd s'.imu)) with
    | mk ticks imu =>
      obtain ⟨rs, hrs, hfinal⟩ := run_loopSections s'.pilot.vrCmd i.samples i.ticks s'.imu hupdate
      refine ⟨_, ?_, count_loopSections s'.pilot.vrCmd i.samples i.ticks ticks⟩
      have hpreempted : Preempted trig i _ s _ := .intro hreceive
        (ofLoop_loopSections s'.pilot.vrCmd i.samples i.ticks ticks) hrs
        (congrArg Shared.imu hfinal)
      rwa [List.length_map, List.length_range] at hpreempted

theorem exists_preemptedRun {trig : Trig F} {inputs : List Input} {s : LoopState F}
    {rs : List (LoopState F × Observation)} (h : runLoop trig inputs s = .ok rs) :
    ∃ its, PreemptedRun trig its s rs ∧ its.map Prod.fst = inputs ∧
      its.map (fun it => it.2.count .timer) = inputs.map Input.ticks := by
  induction inputs generalizing s rs with
  | nil =>
    cases h
    exact ⟨[], .nil s, rfl, rfl⟩
  | cons i inputs ih =>
    obtain ⟨r, rest, hloop, hrest, rfl⟩ := Machine.run_cons_eq_ok.mp h
    obtain ⟨actions, hfirst, hcount⟩ := exists_preempted hloop
    obtain ⟨its, hrun, hinputs, hcounts⟩ := ih hrest
    refine ⟨(i, actions) :: its, .cons hfirst hrun, ?_, ?_⟩
    · rw [List.map_cons, hinputs]
    · rw [List.map_cons, List.map_cons, hcounts, hcount]

/-- Preemption does not show. However the interrupts come between the sections of `loop()`, each
run from power-on drives and decodes in each iteration what a run of the model does: one that gets
the same from outside and the bursts that the sections read, and in all the same interrupts but
`m`. The variables are the same up to the ticks that have come since the claim. And each run of
the model is a preempted run, with as many interrupts in each iteration. -/
theorem preempted_run (trig : Trig F) (gzOffset gDeadzone : F) :
    (∀ its rs, PreemptedRun trig its (.init gzOffset gDeadzone) rs →
      ∃ inputs rs' m, runLoop trig inputs (.init gzOffset gDeadzone) = .ok rs' ∧
        List.Forall₂ (fun it i' => Sequential it.1 it.2 i') its inputs ∧
        List.Forall₂ (fun r r' => r.2 = r'.2 ∧ ∃ m, r.1 = lateState m r'.1) rs rs' ∧
        (inputs.map Input.ticks).sum + m = (its.map fun it => it.2.count .timer).sum ∧
        Machine.final (.init gzOffset gDeadzone) rs =
          lateState m (Machine.final (.init gzOffset gDeadzone) rs')) ∧
    ∀ inputs rs, runLoop trig inputs (.init gzOffset gDeadzone) = .ok rs →
      ∃ its, PreemptedRun trig its (.init gzOffset gDeadzone) rs ∧ its.map Prod.fst = inputs ∧
        its.map (fun it => it.2.count .timer) = inputs.map Input.ticks := by
  refine ⟨fun its rs h => ?_, fun inputs rs h => exists_preemptedRun h⟩
  obtain ⟨inputs, rs', m, hrun, hinputs, hsame, hticks, hfinal⟩ :=
    runLoop_of_preempted (n := 0) (s := .init gzOffset gDeadzone) h
  rw [Nat.zero_add] at hticks
  exact ⟨inputs, rs', m, hrun, hinputs, hsame, hticks, hfinal⟩

end

/-- An interrupt before the switch, one before the claim, one while the heading is integrated, and
one before the last write. -/
def preemptedSections : List Action :=
  [.timer, .switch 0, .timer, .claim 0, .readHeading (.ofGz 0x7F 0xFF), .timer, .writeHeading,
    .writeRotation, .readHeading (.ofGz 0x10 0x00), .writeHeading, .timer, .writeRotation, .look]

/-- An iteration without a byte. -/
def preemptedInputs : List (Input × List Action) :=
  [(.untimed silentRead 0 fun _ => .ofGz 0 0, preemptedSections)]

/-- Four interrupts, two of which come before the claim. -/
theorem preempted_run_silent :
    ∃ rs, PreemptedRun Trig.constant preemptedInputs (.init 0 0) rs ∧
      ∃ inputs rs', runLoop Trig.constant inputs (.init 0 0) = .ok rs' ∧
        List.Forall₂ (fun it i' => Sequential it.1 it.2 i') preemptedInputs inputs ∧
        List.Forall₂ (fun r r' => r.2 = r'.2 ∧ ∃ m, r.1 = lateState m r'.1) rs rs' := by
  have hcheck : (match runSteps preemptedSections (⟨.init 0 0, .idle⟩ : Shared ℚ) with
      | .ok _ => true
      | .error _ => false) = true := by
    decide +kernel
  split at hcheck
  next rs hrs =>
    have horder : ofLoop preemptedSections =
      imuSteps 0 [.ofGz 0x7F 0xFF, .ofGz 0x10 0x00] false := rfl
    have hrun : PreemptedRun Trig.constant preemptedInputs (.init 0 0) _ :=
      .cons (.intro rfl horder hrs rfl) (.nil _)
    obtain ⟨inputs, rs', m, hloop, hinputs, hsame, -⟩ :=
      (preempted_run Trig.constant 0 0).1 _ _ hrun
    exact ⟨_, hrun, inputs, rs', hloop, hinputs, hsame⟩
  · cases hcheck

end Interleaving
