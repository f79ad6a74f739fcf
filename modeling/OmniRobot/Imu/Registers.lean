import OmniRobot.Imu.Spi

/-!
# The registers behind the bus

What `imu.cpp` relies on of its sensor, as its comments say: the first byte after the chip select
names a register, with bit 7 for a read; a read returns the register and, while `IF_INC` is set in
`CTRL3_C`, goes on to the next one; a write sets it; a software reset is over after 10 ms. `Lsm6ds3`
is a sensor that keeps to this. Its output registers may change at any moment, also within a burst.

## Main results

* `lsm6ds3WriteReg_spec`: a write sets its register and no other setting;
* `configured_lsm6ds3Init`: the setup leaves the sensor configured;
* `readOut_registers`: a burst reads consecutive registers;
* `registers_run`: so do all bursts of `imu_update`, whenever it is called.
-/

/-- Where a sensor stands in a transaction. -/
inductive Phase where
  /-- Not selected. -/
  | idle
  /-- Selected, with the register still to be named. -/
  | selected
  | reading (reg : UInt8)
  | writing (reg : UInt8)

/-- The registers that hold the settings. -/
def settings : List UInt8 := [ctrl1XL, ctrl2G, ctrl3C]

section

variable {σ : Type}

/-- A sensor that is not being reset keeps its settings. -/
def KeepsSettings (regs : σ → UInt8 → UInt8) (ready : σ → Prop) (s s' : σ) : Prop :=
  ready s → ready s' ∧ ∀ reg ∈ settings, regs s' reg = regs s reg

/-- A sensor that keeps to the protocol. -/
structure Lsm6ds3 (bus : Spi σ) where
  /-- The contents of a register. -/
  regs : σ → UInt8 → UInt8
  phase : σ → Phase
  /-- No software reset is going on. -/
  ready : σ → Prop
  select_spec : ∀ s, phase s = .idle →
    phase (bus.select s) = .selected ∧ KeepsSettings regs ready s (bus.select s)
  /-- The first byte names a register. -/
  command_spec : ∀ s b, phase s = .selected →
    phase (bus.transfer b s).2 =
        (if b &&& spiReadFlag ≠ 0 then .reading (b &&& ~~~spiReadFlag) else .writing b) ∧
      KeepsSettings regs ready s (bus.transfer b s).2
  /-- A read goes on to the next register if `IF_INC` is set. -/
  read_spec : ∀ s b reg, phase s = .reading reg →
    (bus.transfer b s).1 = regs s reg ∧
      phase (bus.transfer b s).2 =
        .reading (if regs s ctrl3C &&& 0x04 ≠ 0 then reg + 1 else reg) ∧
      KeepsSettings regs ready s (bus.transfer b s).2
  /-- A write that is no software reset. -/
  write_spec : ∀ s b reg, phase s = .writing reg → reg ∈ settings → ready s →
    (reg = ctrl3C → b &&& 0x01 = 0) →
    ready (bus.transfer b s).2 ∧ regs (bus.transfer b s).2 reg = b ∧
      ∀ reg' ∈ settings, reg' ≠ reg → regs (bus.transfer b s).2 reg' = regs s reg'
  deselect_spec : ∀ s, phase (bus.deselect s) = .idle ∧
    KeepsSettings regs ready s (bus.deselect s)
  /-- A software reset is over after 10 ms. -/
  delay_spec : ∀ s ms, phase s = .idle → phase (bus.delay ms s) = .idle ∧
    KeepsSettings regs ready s (bus.delay ms s) ∧ (10 ≤ ms → ready (bus.delay ms s))

namespace Lsm6ds3

variable {bus : Spi σ} (chip : Lsm6ds3 bus)

/-- The sensor is set up, and not selected. -/
structure Configured (s : σ) : Prop where
  idle : chip.phase s = .idle
  ready : chip.ready s
  ctrl1XL_eq : chip.regs s ctrl1XL = 0x60
  ctrl2G_eq : chip.regs s ctrl2G = 0x60
  ctrl3C_eq : chip.regs s ctrl3C = 0x44

variable {chip}

theorem Configured.of_keeps {s s' : σ} (h : chip.Configured s) (hidle : chip.phase s' = .idle)
    (hkeeps : KeepsSettings chip.regs chip.ready s s') : chip.Configured s' := by
  obtain ⟨hready, hsame⟩ := hkeeps h.ready
  exact ⟨hidle, hready, (hsame _ (by decide)).trans h.ctrl1XL_eq,
    (hsame _ (by decide)).trans h.ctrl2G_eq, (hsame _ (by decide)).trans h.ctrl3C_eq⟩

variable (chip)

/-! ### The setup -/

/-- A write sets its register and no other setting. -/
theorem lsm6ds3WriteReg_spec (reg val : UInt8) {s : σ} (hidle : chip.phase s = .idle)
    (hready : chip.ready s) (hreg : reg ∈ settings) (hval : reg = ctrl3C → val &&& 0x01 = 0) :
    chip.phase (bus.lsm6ds3WriteReg reg val s) = .idle ∧
      chip.ready (bus.lsm6ds3WriteReg reg val s) ∧
      chip.regs (bus.lsm6ds3WriteReg reg val s) reg = val ∧
      ∀ reg' ∈ settings, reg' ≠ reg →
        chip.regs (bus.lsm6ds3WriteReg reg val s) reg' = chip.regs s reg' := by
  obtain ⟨hself, hflag⟩ : reg &&& ~~~spiReadFlag = reg ∧ reg &&& spiReadFlag = 0 := by
    have hcases : reg = ctrl1XL ∨ reg = ctrl2G ∨ reg = ctrl3C := by simpa [settings] using hreg
    rcases hcases with rfl | rfl | rfl
    all_goals exact ⟨rfl, rfl⟩
  obtain ⟨hselected, hkeeps₁⟩ := chip.select_spec s hidle
  obtain ⟨hready₁, hsame₁⟩ := hkeeps₁ hready
  obtain ⟨hwriting, hkeeps₂⟩ := chip.command_spec _ (reg &&& ~~~spiReadFlag) hselected
  obtain ⟨hready₂, hsame₂⟩ := hkeeps₂ hready₁
  rw [hself, hflag, if_neg (not_not.mpr rfl)] at hwriting
  obtain ⟨hready₃, hset, hothers⟩ :=
    chip.write_spec _ val reg (by rw [hself]; exact hwriting) hreg hready₂ hval
  obtain ⟨hidle', hkeeps₄⟩ := chip.deselect_spec
    (bus.transfer val (bus.transfer (reg &&& ~~~spiReadFlag) (bus.select s)).2).2
  obtain ⟨hready₄, hsame₄⟩ := hkeeps₄ hready₃
  refine ⟨hidle', hready₄, (hsame₄ reg hreg).trans hset, fun reg' hreg' hne => ?_⟩
  calc chip.regs (bus.lsm6ds3WriteReg reg val s) reg'
      = chip.regs (bus.transfer val
          (bus.transfer (reg &&& ~~~spiReadFlag) (bus.select s)).2).2 reg' := hsame₄ reg' hreg'
    _ = chip.regs (bus.transfer (reg &&& ~~~spiReadFlag) (bus.select s)).2 reg' :=
        hothers reg' hreg' hne
    _ = chip.regs s reg' := (hsame₂ reg' hreg').trans (hsame₁ reg' hreg')

/-- The setup leaves the sensor configured, whatever it was before. -/
theorem configured_lsm6ds3Init {s : σ} (h : (bus.lsm6ds3Init s).1 = true) :
    chip.Configured (bus.lsm6ds3Init s).2 := by
  have hwhoami : (bus.lsm6ds3ReadReg whoAmI s).1 = 0x69 := (lsm6ds3Init_eq_true_iff bus s).mp h
  rw [Spi.lsm6ds3Init]
  dsimp only
  rw [if_neg (not_not.mpr hwhoami)]
  -- the software reset is over before the settings are written
  have hidle₁ : chip.phase (bus.lsm6ds3WriteReg ctrl3C 0x01 (bus.lsm6ds3ReadReg whoAmI s).2) =
      .idle := (chip.deselect_spec _).1
  obtain ⟨hidle₂, -, hready₂⟩ := chip.delay_spec _ 10 hidle₁
  obtain ⟨hidle₃, hready₃, hxl, -⟩ := chip.lsm6ds3WriteReg_spec ctrl1XL 0x60 hidle₂ (hready₂ le_rfl)
    (by decide) (by decide)
  obtain ⟨hidle₄, hready₄, hg, hsame₄⟩ := chip.lsm6ds3WriteReg_spec ctrl2G 0x60 hidle₃ hready₃
    (by decide) (by decide)
  obtain ⟨hidle₅, hready₅, hc, hsame₅⟩ := chip.lsm6ds3WriteReg_spec ctrl3C 0x44 hidle₄ hready₄
    (by decide) (by decide)
  obtain ⟨hidle₆, hkeeps₆, -⟩ := chip.delay_spec _ 10 hidle₅
  refine Configured.of_keeps ⟨hidle₅, hready₅, ?_, ?_, hc⟩ hidle₆ hkeeps₆
  · rw [hsame₅ _ (by decide) (by decide), hsame₄ _ (by decide) (by decide), hxl]
  · rw [hsame₅ _ (by decide) (by decide), hg]

/-! ### Bursts -/

/-- The world after `j` bytes of a burst. -/
def after (bus : Spi σ) (j : ℕ) (s : σ) : σ := (fun s => (bus.transfer 0x00 s).2)^[j] s

/-- Each byte of a burst is read from a register of its own, one after the other. -/
theorem reads_transfer {s : σ} {reg : UInt8} (n : ℕ) (hphase : chip.phase s = .reading reg)
    (hready : chip.ready s) (hinc : chip.regs s ctrl3C = 0x44) :
    (∀ j < n, (reads (bus.transfer 0x00) n s).1.getD j 0 =
        chip.regs (after bus j s) (reg + UInt8.ofNat j)) ∧
      KeepsSettings chip.regs chip.ready s (reads (bus.transfer 0x00) n s).2 := by
  induction n generalizing s reg with
  | zero => exact ⟨fun j hj => absurd hj (Nat.not_lt_zero j), fun h => ⟨h, fun _ _ => rfl⟩⟩
  | succ n ih =>
    obtain ⟨hbyte, hnext, hkeeps⟩ := chip.read_spec s 0x00 reg hphase
    rw [hinc, if_pos (by decide)] at hnext
    obtain ⟨hready', hsame⟩ := hkeeps hready
    obtain ⟨hbytes, hrest⟩ := ih hnext hready' ((hsame _ (by decide)).trans hinc)
    constructor
    · intro j hj
      cases j with
      | zero =>
        have hreg : reg + UInt8.ofNat 0 = reg := by simp
        rw [hreg]
        exact hbyte
      | succ j =>
        have hreg : reg + UInt8.ofNat (j + 1) = reg + 1 + UInt8.ofNat j := by
          rw [UInt8.ofNat_add, UInt8.add_assoc, UInt8.add_comm 1]
          rfl
        rw [hreg]
        exact hbytes j (Nat.lt_of_succ_lt_succ hj)
    · intro hs
      obtain ⟨hlast, hsame'⟩ := hrest hready'
      exact ⟨hlast, fun r hr => (hsame' r hr).trans (hsame r hr)⟩

/-- The world when the first byte of a burst from `OUTX_L_G` is read. -/
def cursor (bus : Spi σ) (s : σ) : σ :=
  (bus.transfer (outxLG ||| spiReadFlag) (bus.select s)).2

/-- A burst reads consecutive registers, and leaves the sensor configured. -/
theorem readOut_registers {s : σ} (h : chip.Configured s) {n : ℕ} (hn : n < 256) :
    (∀ j : Fin n, (bus.readOut n s).1 j =
        chip.regs (after bus j (cursor bus s)) (outxLG + UInt8.ofNat j)) ∧
      chip.Configured (bus.readOut n s).2 := by
  obtain ⟨hselected, hkeeps₁⟩ := chip.select_spec s h.idle
  obtain ⟨hready₁, hsame₁⟩ := hkeeps₁ h.ready
  obtain ⟨hreading, hkeeps₂⟩ := chip.command_spec _ (outxLG ||| spiReadFlag) hselected
  obtain ⟨hready₂, hsame₂⟩ := hkeeps₂ hready₁
  have hcursor : chip.phase (cursor bus s) = .reading outxLG := hreading
  have hsame : ∀ r ∈ settings, chip.regs (cursor bus s) r = chip.regs s r :=
    fun r hr => (hsame₂ r hr).trans (hsame₁ r hr)
  obtain ⟨hbytes, hkeeps₃⟩ := chip.reads_transfer n hcursor hready₂
    ((hsame _ (by decide)).trans h.ctrl3C_eq)
  obtain ⟨hready₃, hsame₃⟩ := hkeeps₃ hready₂
  have hcount : (UInt8.ofNat n).toNat = n := UInt8.toNat_ofNat_of_lt' hn
  obtain ⟨hidle, hkeeps₄⟩ :=
    chip.deselect_spec (reads (bus.transfer 0x00) n (cursor bus s)).2
  obtain ⟨hready₄, hsame₄⟩ := hkeeps₄ hready₃
  have hstate : (bus.readOut n s).2 =
      bus.deselect (reads (bus.transfer 0x00) n (cursor bus s)).2 := by
    simp only [Spi.readOut, Spi.lsm6ds3ReadBurst, hcount]
    rfl
  constructor
  · intro j
    rw [← hbytes j j.isLt]
    simp only [Spi.readOut, Spi.lsm6ds3ReadBurst, hcount]
    rfl
  · rw [hstate]
    refine h.of_keeps hidle fun _ => ⟨hready₄, fun r hr => ?_⟩
    rw [hsame₄ r hr, hsame₃ r hr, hsame r hr]

/-- The world when byte `j` of burst `i` is read, in a series of bursts of 12 bytes. -/
def moment (bus : Spi σ) (i j : ℕ) (s : σ) : σ :=
  after bus j (cursor bus ((fun s => (bus.readOut 12 s).2)^[i] s))

/-- So does a series of bursts. -/
theorem reads_registers {s : σ} (h : chip.Configured s) (n : ℕ) :
    (∀ i < n, ∀ j : Fin 12, ((reads (bus.readOut 12) n s).1.getD i fun _ => 0) j =
        chip.regs (moment bus i j s) (outxLG + UInt8.ofNat j)) ∧
      chip.Configured (reads (bus.readOut 12) n s).2 := by
  induction n generalizing s with
  | zero => exact ⟨fun i hi => absurd hi (Nat.not_lt_zero i), h⟩
  | succ n ih =>
    obtain ⟨hburst, hnext⟩ := chip.readOut_registers h (n := 12) (by decide)
    obtain ⟨hbursts, hlast⟩ := ih hnext
    refine ⟨fun i hi j => ?_, hlast⟩
    cases i with
    | zero => exact hburst j
    | succ i => exact hbursts i (Nat.lt_of_succ_lt_succ hi) j

end Lsm6ds3

/-! ### Every run -/

/-- Sampling leaves the sensor configured. -/
theorem configured_readSample {bus : Spi σ} (chip : Lsm6ds3 bus) {s : σ} (h : chip.Configured s)
    (n : ℕ) : chip.Configured (reads bus.readSample n s).2 := by
  induction n generalizing s with
  | zero => exact h
  | succ n ih =>
    have hread := (chip.readOut_registers h (n := 6) (by decide)).2
    obtain ⟨hidle, hkeeps, -⟩ := chip.delay_spec _ 2 hread.idle
    exact ih (hread.of_keeps hidle hkeeps)

variable {F : Type} [Field F]

theorem configured_measureNoise {bus : Spi σ} (chip : Lsm6ds3 bus) {s : σ} (h : chip.Configured s)
    (sqrtf : F → F) (gzOffset : F) (samples : ℤ) :
    chip.Configured (bus.lsm6ds3MeasureNoise sqrtf gzOffset samples s).2 := by
  simp only [Spi.lsm6ds3MeasureNoise, loopReads_eq]
  exact configured_readSample chip h samples.toNat

variable [LinearOrder F]

theorem configured_calibrateGyro {bus : Spi σ} (chip : Lsm6ds3 bus) {s : σ}
    (h : chip.Configured s) (samples : ℤ) :
    chip.Configured (bus.lsm6ds3CalibrateGyro (F := F) samples s).2 := by
  obtain ⟨hidle, hkeeps, -⟩ := chip.delay_spec _ 2000 h.idle
  have hfirst := configured_readSample chip (h.of_keeps hidle hkeeps) samples.toNat
  -- one series, or two
  simp only [Spi.lsm6ds3CalibrateGyro, loopReads_eq]
  split_ifs
  · exact configured_readSample chip hfirst samples.toNat
  · exact hfirst

variable [IsStrictOrderedRing F] [FloorRing F]

/-- What the IMU variables and the world can be once `imu_init` has returned: time passes, the rest
of the program changes variables but leaves the bus alone, and `imu_update` is called. -/
inductive Operates (bus : Spi σ) (sqrtf : F → F) : Imu F → σ → Prop
  | init {imu imu' : Imu F} {s s' : σ} :
      bus.imuInit sqrtf imu s = some (imu', s') → Operates bus sqrtf imu' s'
  | wait {imu : Imu F} {s : σ} (ms : ℕ) :
      Operates bus sqrtf imu s → Operates bus sqrtf imu (bus.delay ms s)
  | other {imu : Imu F} {s : σ} (imu' : Imu F) :
      Operates bus sqrtf imu s → Operates bus sqrtf imu' s
  | update {imu : Imu F} {s : σ} (vrCmd : ℤ) : Operates bus sqrtf imu s →
      Operates bus sqrtf (bus.imuUpdate vrCmd imu s).1.2 (bus.imuUpdate vrCmd imu s).2

/-- The sensor stays configured. -/
theorem Operates.configured {bus : Spi σ} (chip : Lsm6ds3 bus) {sqrtf : F → F} {imu : Imu F} {s : σ}
    (h : Operates bus sqrtf imu s) : chip.Configured s := by
  induction h with
  | @init imu imu' s s' h =>
    rw [Spi.imuInit] at h
    split_ifs at h with hfound
    obtain ⟨-, rfl⟩ := Prod.mk.inj (Option.some.inj h)
    have hinit := chip.configured_lsm6ds3Init hfound
    exact configured_measureNoise chip (configured_calibrateGyro (F := F) chip hinit 2000) _ _ 500
  | wait ms _ ih =>
    obtain ⟨hidle, hkeeps, -⟩ := chip.delay_spec _ ms ih.idle
    exact ih.of_keeps hidle hkeeps
  | other _ _ ih => exact ih
  | update vrCmd _ ih =>
    rw [imuUpdate_bus]
    exact (chip.reads_registers ih _).2

/-- What reaches the control loop. Let the sensor keep to the protocol. Once `imu_init` has
returned, in every call of `imu_update` byte `j` of each burst is what register `0x22 + j` holds at
the moment it is read, and the call does with these bursts what `imuUpdate` says. -/
theorem registers_run {bus : Spi σ} (chip : Lsm6ds3 bus) {sqrtf : F → F} {imu : Imu F} {s : σ}
    (h : Operates bus sqrtf imu s) (vrCmd : ℤ) :
    ∃ samples : ℕ → Burst, (bus.imuUpdate vrCmd imu s).1 = imuUpdate vrCmd samples imu ∧
      ∀ i < (claimTicks imu).1, ∀ j : Fin 12,
        samples i j = chip.regs (Lsm6ds3.moment bus i j s) (0x22 + UInt8.ofNat j) := by
  rw [imuUpdate_bus]
  exact ⟨_, rfl, (chip.reads_registers (h.configured chip) _).1⟩

/-! ### A sensor on the bench -/

/-- A sensor whose registers change only by writes. -/
structure Bench where
  phase : Phase
  regs : UInt8 → UInt8

/-- The register it goes on to. -/
def Bench.next (s : Bench) (reg : UInt8) : UInt8 :=
  if s.regs ctrl3C &&& 0x04 ≠ 0 then reg + 1 else reg

/-- One byte to and from it. -/
def Bench.transfer (b : UInt8) (s : Bench) : UInt8 × Bench :=
  match s.phase with
  | .idle => (0, s)
  | .selected =>
      (0, { s with
        phase := if b &&& spiReadFlag ≠ 0 then .reading (b &&& ~~~spiReadFlag) else .writing b })
  | .reading reg => (s.regs reg, { s with phase := .reading (s.next reg) })
  | .writing reg => (0, ⟨.writing (s.next reg), Function.update s.regs reg b⟩)

/-- The bus to it. -/
def benchBus : Spi Bench where
  select s := { s with phase := .selected }
  deselect s := { s with phase := .idle }
  transfer := Bench.transfer
  delay _ s := s

/-- It keeps to the protocol. -/
def benchChip : Lsm6ds3 benchBus where
  regs := Bench.regs
  phase := Bench.phase
  ready _ := True
  select_spec _ _ := ⟨rfl, fun _ => ⟨trivial, fun _ _ => rfl⟩⟩
  command_spec s b h := by
    simp [benchBus, Bench.transfer, h, KeepsSettings]
  read_spec s b reg h := by
    simp [benchBus, Bench.transfer, Bench.next, h, KeepsSettings]
  write_spec s b reg h _ _ _ := by
    simp +contextual [benchBus, Bench.transfer, h]
  deselect_spec _ := ⟨rfl, fun _ => ⟨trivial, fun _ _ => rfl⟩⟩
  delay_spec _ _ h := ⟨h, fun _ => ⟨trivial, fun _ _ => rfl⟩, fun _ => trivial⟩

/-- At first it holds its name, and nothing else. -/
def Bench.start : Bench := ⟨.idle, fun reg => if reg = whoAmI then 0x69 else 0⟩

/-- The setup finds it. -/
theorem imuInit_benchBus :
    ∃ imu s, benchBus.imuInit id (.init (0 : ℚ) (2 / 10)) .start = some (imu, s) := by
  have hfound : benchBus.imuInit id (.init (0 : ℚ) (2 / 10)) .start ≠ none := by
    rw [Ne, imuInit_eq_none_iff]
    decide
  obtain ⟨⟨imu, s⟩, h⟩ := Option.ne_none_iff_exists'.mp hfound
  exact ⟨imu, s, h⟩

/-- The first tick reads its registers. -/
theorem registers_run_bench :
    ∃ imu s, benchBus.imuInit id (.init (0 : ℚ) (2 / 10)) .start = some (imu, s) ∧
      ∃ samples : ℕ → Burst,
        (benchBus.imuUpdate 0 (onImuTimer imu) s).1 = imuUpdate 0 samples (onImuTimer imu) ∧
        ∀ j : Fin 12, samples 0 j =
          benchChip.regs (Lsm6ds3.moment benchBus 0 j s) (0x22 + UInt8.ofNat j) := by
  obtain ⟨imu, s, h⟩ := imuInit_benchBus
  have htick : 0 < (claimTicks (onImuTimer imu)).1 := by
    obtain ⟨-, -, -, -, -, rfl⟩ := imuInit_eq_some _ h
    exact Nat.one_pos
  obtain ⟨samples, hsamples, hregs⟩ := registers_run benchChip ((Operates.init h).other _) 0
  exact ⟨imu, s, h, samples, hsamples, fun j => hregs 0 htick j⟩

end
