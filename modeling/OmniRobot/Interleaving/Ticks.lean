import OmniRobot.Interleaving.Step

/-!
# Ticks under interleaving

The interrupt counts ticks, and `imu_update` claims at most ten of them at once and reads one burst
for each. No tick is lost or processed twice, whenever the interrupts come. What the ticks leave
depends on their bursts alone, not on the calls that claim them.

## Main results

* `Balanced`, `balanced_run`: the account of interrupts, claims, reads and returns;
* `Processed`, `processed_run`: the variables are those that the bursts leave, one after the other;
* `ticks_conserved`: both, for every interleaving and every two of them.
-/

namespace Interleaving

/-! ### The account of ticks -/

/-- A claim: the ticks pending, and those claimed. -/
structure Claim where
  pending : ℕ
  ticks : ℕ

/-- A call that has returned: the ticks it claimed, the bursts it read and what it returned. -/
structure Report where
  claimed : ℕ
  reads : ℕ
  returned : ℕ

/-- The account that a log gives of the ticks. -/
structure Ledger where
  interrupts : ℕ
  claimed : ℕ
  claims : List Claim
  reports : List Report
  /-- The ticks claimed and the bursts read by the latest call. -/
  openClaimed : ℕ
  openReads : ℕ

namespace Ledger

/-- One event. -/
def note {F : Type} (t : Ledger) : Event F → Ledger
  | .interrupt => { t with interrupts := t.interrupts + 1 }
  | .claimed pending ticks =>
      { t with
        claimed := t.claimed + ticks
        claims := t.claims ++ [⟨pending, ticks⟩]
        openClaimed := ticks
        openReads := 0 }
  | .read _ => { t with openReads := t.openReads + 1 }
  | .returned n => { t with reports := t.reports ++ [⟨t.openClaimed, t.openReads, n⟩] }
  | _ => t

/-- The account of a log. -/
def of {F : Type} (log : List (Event F)) : Ledger := log.foldl note ⟨0, 0, [], [], 0, 0⟩

theorem of_append {F : Type} (log es : List (Event F)) :
    of (log ++ es) = es.foldl note (of log) := List.foldl_append

end Ledger

/-- The open call and the account agree: it has as many bursts to read as are missing. -/
def Call.OnTheWay {F : Type} (c : Call F) (t : Ledger) : Prop :=
  t.openClaimed = c.ticksProcessed ∧ t.openReads + c.ticksToProcess = c.ticksProcessed ∧
    c.ticksProcessed ≤ 10

/-- The open call, if there is one, agrees with the account. In the window the burst that has been
read is no longer to be read, so no place needs a case of its own. -/
def Phase.OnTheWay {F : Type} (t : Ledger) : Phase F → Prop
  | .idle => True
  | .head c => c.OnTheWay t ∧ c.ticksToProcess ≠ 0
  | .window c _ => c.OnTheWay t
  | .drive c _ => c.OnTheWay t

/-- The account is balanced. -/
structure Balanced {F : Type} (s : Shared F) (t : Ledger) : Prop where
  interrupts_eq : t.interrupts = t.claimed + s.imu.imuTickPending.toNat
  claims_le : ∀ c ∈ t.claims, c.ticks ≤ 10 ∧ c.ticks ≤ c.pending
  reports_eq : ∀ c ∈ t.reports, c.reads = c.returned ∧ c.claimed = c.returned ∧ c.returned ≤ 10
  onTheWay : s.phase.OnTheWay t

/-- A call goes on, or returns with a balanced report. -/
theorem balanced_resume {F : Type} {imu : Imu F} {c : Call F} {t : Ledger}
    (hinterrupts : t.interrupts = t.claimed + imu.imuTickPending.toNat)
    (hclaims : ∀ c ∈ t.claims, c.ticks ≤ 10 ∧ c.ticks ≤ c.pending)
    (hreports : ∀ c ∈ t.reports, c.reads = c.returned ∧ c.claimed = c.returned ∧ c.returned ≤ 10)
    (hc : c.OnTheWay t) :
    Balanced ⟨imu, c.resume.1⟩ (c.resume.2.foldl Ledger.note t) := by
  unfold Call.resume
  split_ifs with hzero
  · obtain ⟨hclaimed, hreads, hle⟩ := hc
    refine ⟨hinterrupts, hclaims, ?_, trivial⟩
    change ∀ c ∈ t.reports ++ [_], _
    rw [List.forall_mem_append, List.forall_mem_singleton]
    have hread : t.openReads = c.ticksProcessed := by omega
    exact ⟨hreports, hread, hclaimed, hle⟩
  · exact ⟨hinterrupts, hclaims, hreports, hc, hzero⟩

section

variable {F : Type} [Field F] [LinearOrder F] [IsStrictOrderedRing F] [FloorRing F]

/-- An interrupt finds room to count. -/
def NoWrap : Action → Shared F → Prop
  | .timer, s => s.imu.imuTickPending.toNat + 1 < 2 ^ 32
  | _, _ => True

instance : (a : Action) → (s : Shared F) → Decidable (NoWrap a s)
  | .timer, s => inferInstanceAs (Decidable (s.imu.imuTickPending.toNat + 1 < 2 ^ 32))
  | .reset, _ | .switch _, _ | .look, _ | .claim _, _ | .readHeading _, _ | .writeHeading, _
  | .writeRotation, _ => .isTrue trivial

omit [Field F] [LinearOrder F] [IsStrictOrderedRing F] [FloorRing F] in
/-- A claim takes ten ticks at most, and no more than are pending. -/
theorem claimTicks_spec (imu : Imu F) :
    (claimTicks imu).1 ≤ 10 ∧ (claimTicks imu).1 ≤ imu.imuTickPending.toNat ∧
      (claimTicks imu).1 + (claimTicks imu).2.imuTickPending.toNat = imu.imuTickPending.toNat := by
  unfold claimTicks
  dsimp only
  by_cases h : imu.imuTickPending ≤ 10
  · have hmin : min imu.imuTickPending 10 = imu.imuTickPending := if_pos h
    have hten : imu.imuTickPending.toNat ≤ 10 := UInt32.le_iff_toNat_le.mp h
    rw [hmin, UInt32.sub_self]
    exact ⟨hten, le_rfl, rfl⟩
  · have hmin : min imu.imuTickPending 10 = 10 := if_neg h
    have hlt : 10 < imu.imuTickPending.toNat :=
      Nat.lt_of_not_le fun hle => h (UInt32.le_iff_toNat_le.mpr hle)
    have hsub : (imu.imuTickPending - 10).toNat = imu.imuTickPending.toNat - 10 :=
      UInt32.toNat_sub_of_le _ _ (UInt32.le_iff_toNat_le.mpr hlt.le)
    rw [hmin, hsub]
    exact ⟨le_rfl, hlt.le, Nat.add_sub_cancel' hlt.le⟩

/-- Each critical section keeps the account balanced. -/
theorem balanced_step {a : Action} {s : Shared F} {r : Shared F × List (Event F)}
    {log : List (Event F)} (ha : NoWrap a s) (h : Balanced s (.of log))
    (hstep : step a s = .ok r) : Balanced r.1 (.of (log ++ r.2)) := by
  rw [Ledger.of_append]
  obtain ⟨hinterrupts, hclaims, hreports, hway⟩ := h
  generalize Ledger.of log = t at hinterrupts hclaims hreports hway ⊢
  cases steps_of_step hstep with
  | timer imu phase =>
    have hcount : (onImuTimer imu).imuTickPending.toNat = imu.imuTickPending.toNat + 1 := by
      rw [onImuTimer, UInt32.toNat_add]
      exact Nat.mod_eq_of_lt ha
    refine ⟨?_, hclaims, hreports, hway⟩
    change t.interrupts + 1 = t.claimed + (onImuTimer imu).imuTickPending.toNat
    rw [hcount, hinterrupts, Nat.add_assoc]
  | switch vrCmd imu =>
    have hpending : (switchYawHold vrCmd imu).imuTickPending = imu.imuTickPending := by
      unfold switchYawHold
      split_ifs <;> rfl
    exact ⟨by rw [hpending]; exact hinterrupts, hclaims, hreports, hway⟩
  | claim vrCmd imu c hc =>
    obtain ⟨hten, hle, hsub⟩ := claimTicks_spec imu
    subst hc
    refine balanced_resume ?_ ?_ hreports ⟨rfl, Nat.zero_add _, hten⟩
    · change t.interrupts =
        t.claimed + (claimTicks imu).1 + (claimTicks imu).2.imuTickPending.toNat
      rw [hinterrupts, Nat.add_assoc, hsub]
    · change ∀ c ∈ t.claims ++ [_], _
      rw [List.forall_mem_append, List.forall_mem_singleton]
      exact ⟨hclaims, hten, hle⟩
  | readHeading buf imu c =>
    obtain ⟨⟨hclaimed, hreads, hten⟩, hne⟩ := hway
    refine ⟨hinterrupts, hclaims, hreports, hclaimed, ?_, hten⟩
    change t.openReads + 1 + (c.ticksToProcess - 1) = c.ticksProcessed
    omega
  | writeRotation imu c newYaw =>
    refine balanced_resume ?_ hclaims hreports hway
    have hpending : (c.writeRotation newYaw imu).imuTickPending = imu.imuTickPending := by
      unfold Call.writeRotation
      split_ifs <;> rfl
    rw [hpending]
    exact hinterrupts
  | _ => exact ⟨hinterrupts, hclaims, hreports, hway⟩

theorem balanced_run {imu : Imu F} (hpending : imu.imuTickPending = 0) {actions : List Action}
    {rs : List (Shared F × List (Event F))} (h : runSteps actions ⟨imu, .idle⟩ = .ok rs)
    (hwrap : Machine.Along NoWrap actions ⟨imu, .idle⟩ rs) :
    Balanced (Machine.final ⟨imu, .idle⟩ rs) (.of (Machine.log rs)) := by
  have hinit : Balanced (⟨imu, .idle⟩ : Shared F) (.of ([] : List (Event F))) :=
    ⟨by rw [hpending]; rfl, nofun, nofun, trivial⟩
  exact Machine.run_log (C := NoWrap) (R := fun s log => Balanced s (.of log))
    (fun _ _ _ _ ha hs hstep => balanced_step ha hs hstep) hinit h hwrap

/-! ### What the ticks leave -/

/-- The variables without the count of pending ticks. -/
def settle (imu : Imu F) : Imu F := { imu with imuTickPending := 0 }

/-- What the ticks of some bursts leave from `imu`. -/
def ticks (vrCmd : ℤ) (imu : Imu F) (bufs : List Burst) : Imu F :=
  bufs.foldl (imuTick imu.yawHoldEnabled imu.yawTarget vrCmd) (settle imu)

theorem ticks_concat (vrCmd : ℤ) (imu : Imu F) (bufs : List Burst) (buf : Burst) :
    ticks vrCmd imu (bufs ++ [buf]) =
      imuTick imu.yawHoldEnabled imu.yawTarget vrCmd (ticks vrCmd imu bufs) buf := by
  rw [ticks, List.foldl_append]
  rfl

theorem ticks_settings (vrCmd : ℤ) (imu : Imu F) (bufs : List Burst) :
    (ticks vrCmd imu bufs).yawHoldEnabled = imu.yawHoldEnabled ∧
      (ticks vrCmd imu bufs).yawTarget = imu.yawTarget := by
  have h := ticks_sameSettings imu.yawHoldEnabled imu.yawTarget vrCmd (settle imu) bufs
  exact ⟨h.yawHoldEnabled_eq, h.yawTarget_eq⟩

/-- A call made with the flag, the target and the command of these ticks. -/
def Call.Copies (vrCmd : ℤ) (imu : Imu F) (c : Call F) : Prop :=
  c.vrCmd = vrCmd ∧ c.holdEnabled = imu.yawHoldEnabled ∧ c.targetYaw = imu.yawTarget

/-- The actions that process ticks, all with one command, and those that only count or look. -/
def Action.Processes (vrCmd : ℤ) : Action → Prop
  | .reset | .switch _ => False
  | .claim v => v = vrCmd
  | _ => True

instance (vrCmd : ℤ) (a : Action) : Decidable (a.Processes vrCmd) := by
  unfold Action.Processes
  split <;> infer_instance

/-- The variables are those that the bursts leave that have been read, up to the one in flight. -/
def Processed (vrCmd : ℤ) (imu₀ : Imu F) : Shared F → List Burst → Prop
  | ⟨imu, .idle⟩, bufs => settle imu = ticks vrCmd imu₀ bufs
  | ⟨imu, .head c⟩, bufs => c.Copies vrCmd imu₀ ∧ settle imu = ticks vrCmd imu₀ bufs
  | ⟨imu, .window c next⟩, bufs => c.Copies vrCmd imu₀ ∧ ∃ done buf, bufs = done ++ [buf] ∧
      settle imu = ticks vrCmd imu₀ done ∧ next = nextSnapshot (ticks vrCmd imu₀ done) buf
  | ⟨imu, .drive c newYaw⟩, bufs => c.Copies vrCmd imu₀ ∧ ∃ done buf, bufs = done ++ [buf] ∧
      settle imu = writeSnapshot (nextSnapshot (ticks vrCmd imu₀ done) buf)
        (ticks vrCmd imu₀ done) ∧
      newYaw = (nextSnapshot (ticks vrCmd imu₀ done) buf).yaw

/-- `imu_update` is between two ticks, or idle. -/
def Phase.BetweenTicks : Phase F → Prop
  | .idle | .head _ => True
  | _ => False

instance (phase : Phase F) : Decidable phase.BetweenTicks := by
  unfold Phase.BetweenTicks
  split <;> infer_instance

theorem processed_resume {vrCmd : ℤ} {imu₀ imu : Imu F} {c : Call F} {bufs : List Burst}
    (hc : c.Copies vrCmd imu₀) (h : settle imu = ticks vrCmd imu₀ bufs) :
    Processed vrCmd imu₀ ⟨imu, c.resume.1⟩ bufs := by
  unfold Call.resume
  split_ifs
  · exact h
  · exact ⟨hc, h⟩

theorem settle_writeRotation (c : Call F) (newYaw : F) (imu : Imu F) :
    settle (c.writeRotation newYaw imu) = c.writeRotation newYaw (settle imu) := by
  unfold Call.writeRotation
  split_ifs <;> rfl

/-- Each critical section processes the ticks in order. -/
theorem processed_step {vrCmd : ℤ} {imu₀ : Imu F} {a : Action} {s : Shared F}
    {r : Shared F × List (Event F)} {log : List (Event F)} (ha : a.Processes vrCmd)
    (h : Processed vrCmd imu₀ s (bursts log)) (hstep : step a s = .ok r) :
    Processed vrCmd imu₀ r.1 (bursts (log ++ r.2)) := by
  rw [bursts_append]
  generalize bursts log = bufs at h ⊢
  cases steps_of_step hstep with
  | timer imu phase =>
    -- the count of pending ticks is left out of the relation
    change Processed vrCmd imu₀ ⟨onImuTimer imu, phase⟩ (bufs ++ [])
    rw [List.append_nil]
    cases phase <;> exact h
  | reset imu phase => exact ha.elim
  | switch v imu => exact ha.elim
  | look imu =>
    change Processed vrCmd imu₀ ⟨imu, .idle⟩ (bufs ++ [])
    rwa [List.append_nil]
  | claim v imu c hc =>
    obtain ⟨hhold, htarget⟩ := ticks_settings vrCmd imu₀ bufs
    have hsettle : settle imu = ticks vrCmd imu₀ bufs := h
    rw [← hsettle] at hhold htarget
    have hnone : bursts (.claimed imu.imuTickPending.toNat c.ticksProcessed :: c.resume.2) =
        [] := bursts_eq_nil (List.forall_mem_cons.mpr ⟨trivial, resume_neutral c⟩)
    rw [hnone, List.append_nil]
    subst hc
    exact processed_resume ⟨ha, hhold, htarget⟩ h
  | readHeading buf imu c =>
    obtain ⟨hc, hsettle⟩ := h
    refine ⟨hc, bufs, buf, rfl, hsettle, ?_⟩
    rw [← hsettle]
    rfl
  | writeHeading imu c next =>
    obtain ⟨hc, done, buf, rfl, hsettle, rfl⟩ := h
    refine ⟨hc, done, buf, List.append_nil _, ?_, rfl⟩
    rw [← hsettle]
    rfl
  | writeRotation imu c newYaw =>
    obtain ⟨hc, done, buf, rfl, hsettle, rfl⟩ := h
    rw [bursts_eq_nil (resume_neutral c), List.append_nil]
    refine processed_resume hc ?_
    obtain ⟨hv, hhold, htarget⟩ := hc
    rw [settle_writeRotation, hsettle, ticks_concat, ← hv, ← hhold, ← htarget]
    rfl

theorem processed_run {vrCmd : ℤ} {imu : Imu F} {actions : List Action}
    (hactions : ∀ a ∈ actions, a.Processes vrCmd) {rs : List (Shared F × List (Event F))}
    (h : runSteps actions ⟨imu, .idle⟩ = .ok rs) :
    Processed vrCmd imu (Machine.final ⟨imu, .idle⟩ rs) (bursts (Machine.log rs)) :=
  Machine.run_log (C := fun a _ => a.Processes vrCmd)
    (R := fun s log => Processed vrCmd imu s (bursts log))
    (fun _ _ _ _ ha hs hstep => processed_step ha hs hstep) (l := []) rfl h
    (Machine.along_of_forall (fun a ha _ => hactions a ha) _ _)

theorem settle_of_betweenTicks {vrCmd : ℤ} {imu₀ : Imu F} {s : Shared F} {bufs : List Burst}
    (hphase : s.phase.BetweenTicks) (h : Processed vrCmd imu₀ s bufs) :
    settle s.imu = ticks vrCmd imu₀ bufs := by
  obtain ⟨imu, phase⟩ := s
  cases phase with
  | idle => exact h
  | head c => exact h.2
  | window c next => exact hphase.elim
  | drive c newYaw => exact hphase.elim

omit [Field F] [LinearOrder F] [IsStrictOrderedRing F] [FloorRing F] in
theorem same_of_settle_eq {imu₁ imu₂ : Imu F} (h : settle imu₁ = settle imu₂) :
    imu₁.gImu = imu₂.gImu ∧ imu₁.yawAngle = imu₂.yawAngle ∧
      imu₁.pidIntegral = imu₂.pidIntegral ∧ imu₁.pidPrevErr = imu₂.pidPrevErr ∧
      imu₁.vrFinal = imu₂.vrFinal := by
  rw [settle, settle, Imu.mk.injEq] at h
  obtain ⟨hangle, -, hintegral, hprev, hvr, hgImu, -⟩ := h
  exact ⟨hgImu, hangle, hintegral, hprev, hvr⟩

/-- Ticks are conserved, and their batches do not matter. In every interleaving from no tick
pending, as long as the count does not wrap, the interrupts are the ticks claimed and those still
pending, no claim exceeds ten or the ticks pending, and each call reads as many bursts as it claims
and returns. And any two interleavings of interrupts and calls, with one hold flag, target and
command, that have processed the same bursts agree in what they leave. -/
theorem ticks_conserved (imu : Imu F) :
    (imu.imuTickPending = 0 → ∀ actions rs, runSteps actions ⟨imu, .idle⟩ = .ok rs →
      Machine.Along NoWrap actions ⟨imu, .idle⟩ rs →
      (Ledger.of (Machine.log rs)).interrupts = (Ledger.of (Machine.log rs)).claimed +
        (Machine.final ⟨imu, .idle⟩ rs).imu.imuTickPending.toNat ∧
      (∀ c ∈ (Ledger.of (Machine.log rs)).claims, c.ticks ≤ 10 ∧ c.ticks ≤ c.pending) ∧
      ∀ c ∈ (Ledger.of (Machine.log rs)).reports, c.reads = c.returned ∧ c.claimed = c.returned) ∧
    ∀ vrCmd pending actions₁ actions₂ rs₁ rs₂, (∀ a ∈ actions₁, a.Processes vrCmd) →
      (∀ a ∈ actions₂, a.Processes vrCmd) → runSteps actions₁ ⟨imu, .idle⟩ = .ok rs₁ →
      runSteps actions₂ ⟨{ imu with imuTickPending := pending }, .idle⟩ = .ok rs₂ →
      bursts (Machine.log rs₁) = bursts (Machine.log rs₂) →
      ∀ s₁ s₂, s₁ = Machine.final ⟨imu, .idle⟩ rs₁ →
        s₂ = Machine.final ⟨{ imu with imuTickPending := pending }, .idle⟩ rs₂ →
        s₁.phase.BetweenTicks → s₂.phase.BetweenTicks →
        s₁.imu.gImu = s₂.imu.gImu ∧ s₁.imu.yawAngle = s₂.imu.yawAngle ∧
          s₁.imu.pidIntegral = s₂.imu.pidIntegral ∧ s₁.imu.pidPrevErr = s₂.imu.pidPrevErr ∧
          s₁.imu.vrFinal = s₂.imu.vrFinal := by
  constructor
  · intro hpending actions rs h hwrap
    obtain ⟨hinterrupts, hclaims, hreports, -⟩ := balanced_run hpending h hwrap
    exact ⟨hinterrupts, hclaims, fun c hc => ⟨(hreports c hc).1, (hreports c hc).2.1⟩⟩
  · rintro vrCmd pending actions₁ actions₂ rs₁ rs₂ ha₁ ha₂ h₁ h₂ hbursts s₁ s₂ rfl rfl hp₁ hp₂
    have hticks₁ := settle_of_betweenTicks hp₁ (processed_run ha₁ h₁)
    have hticks₂ := settle_of_betweenTicks hp₂ (processed_run ha₂ h₂)
    -- the pending ticks at the start do not count either
    have hstart : ∀ bufs, ticks vrCmd { imu with imuTickPending := pending } bufs =
        ticks vrCmd imu bufs := fun _ => rfl
    rw [hstart, ← hbursts, ← hticks₁] at hticks₂
    exact same_of_settle_eq hticks₂.symm

end

/-- Two ticks in one call. -/
def together : List Action :=
  [.timer, .timer, .claim 7] ++ passes [.ofGz 0x7F 0xFF, .ofGz 0x10 0x00]

/-- The same two ticks in two calls, with an interrupt in the middle of the first. -/
def apart : List Action :=
  [.timer, .claim 7, .readHeading (.ofGz 0x7F 0xFF), .timer, .writeHeading, .writeRotation,
    .look, .claim 7] ++ passes [.ofGz 0x10 0x00]

/-- The variables after `imu_init`, with yaw hold on. -/
def engaged : Imu ℚ := { Imu.init 0 0 with yawHoldEnabled := true }

/-- With yaw hold on, two ticks leave the same from one call and from two. -/
theorem ticks_conserved_apart :
    ∃ rs₁ rs₂, runSteps together ⟨engaged, .idle⟩ = .ok rs₁ ∧
      runSteps apart ⟨engaged, .idle⟩ = .ok rs₂ ∧
      (Ledger.of (Machine.log rs₂)).interrupts = (Ledger.of (Machine.log rs₂)).claimed +
        (Machine.final ⟨engaged, .idle⟩ rs₂).imu.imuTickPending.toNat ∧
      (Machine.final ⟨engaged, .idle⟩ rs₁).imu.pidIntegral =
        (Machine.final ⟨engaged, .idle⟩ rs₂).imu.pidIntegral := by
  have hcheck : (match runSteps together ⟨engaged, .idle⟩, runSteps apart ⟨engaged, .idle⟩ with
      | .ok rs₁, .ok rs₂ => decide (Machine.Along NoWrap apart ⟨engaged, .idle⟩ rs₂ ∧
          bursts (Machine.log rs₁) = bursts (Machine.log rs₂) ∧
          (Machine.final ⟨engaged, .idle⟩ rs₁).phase.BetweenTicks ∧
          (Machine.final ⟨engaged, .idle⟩ rs₂).phase.BetweenTicks)
      | _, _ => false) = true := by
    decide +kernel
  split at hcheck
  next rs₁ rs₂ hrs₁ hrs₂ =>
    obtain ⟨hwrap, hbursts, hp₁, hp₂⟩ := of_decide_eq_true hcheck
    obtain ⟨hconserved, hsame⟩ := ticks_conserved engaged
    have hpid := hsame 7 0 together apart rs₁ rs₂ (by decide) (by decide) hrs₁ hrs₂ hbursts _ _
      rfl rfl hp₁ hp₂
    exact ⟨rs₁, rs₂, hrs₁, hrs₂, (hconserved rfl apart rs₂ hrs₂ hwrap).1, hpid.2.2.1⟩
  · cases hcheck

end Interleaving
