import Mathlib.Data.Rat.Floor
import OmniRobot.Imu.Heading
import OmniRobot.Imu.Noise

/-!
# The sensor behind the SPI bus

`imu.cpp` as it talks to the sensor: single registers and bursts over SPI, the setup of the sensor,
the calibration, and the loop of `imu_update` with its reads. The bus stands for all of the outside
world. What it answers, and what bytes and time do to it, is a parameter, so the results hold of
any sensor, also of one that does not answer at all.

## Main results

* `loopReads_eq`: a loop that reads and adds is a fold over what it reads;
* `imuInit_eq_some`: the setup is the calibration and the measurement of what it reads;
* `imuInit_spec`: with which offset and dead zone the robot starts;
* `imuUpdate_bus`: one call of `imu_update` processes the bursts it reads.
-/

/-! ### Constants -/

/-- `WHO_AM_I`. -/
def whoAmI : UInt8 := 0x0F

/-- `CTRL1_XL`. -/
def ctrl1XL : UInt8 := 0x10

/-- `CTRL2_G`. -/
def ctrl2G : UInt8 := 0x11

/-- `CTRL3_C`. -/
def ctrl3C : UInt8 := 0x12

/-- `OUTX_L_G`. -/
def outxLG : UInt8 := 0x22

/-- `SPI_READ_FLAG`. -/
def spiReadFlag : UInt8 := 0x80

/-- A literal that another module writes, too. -/
instance atLeastTwo_5 : Nat.AtLeastTwo 5 := ⟨by decide⟩

/-! ### Loops that read -/

section Loops

variable {σ : Type} {A B : Type*} (read : σ → B × σ)

/-- What `n` reads return, and the state after them. -/
def reads : ℕ → σ → List B × σ
  | 0, s => ([], s)
  | n + 1, s =>
      let (b, s) := read s
      let (bs, s) := reads n s
      (b :: bs, s)

/-- A loop that reads `n` times and adds each reading to what it has. -/
def loopReads (add : A → B → A) : ℕ → A → σ → A × σ
  | 0, acc, s => (acc, s)
  | n + 1, acc, s =>
      let (b, s) := read s
      loopReads add n (add acc b) s

@[simp] theorem length_reads (n : ℕ) (s : σ) : (reads read n s).1.length = n := by
  induction n generalizing s with
  | zero => rfl
  | succ n ih => rw [reads, List.length_cons, ih]

/-- A loop that reads and adds is a fold over what it reads. -/
theorem loopReads_eq (add : A → B → A) (n : ℕ) (acc : A) (s : σ) :
    loopReads read add n acc s = ((reads read n s).1.foldl add acc, (reads read n s).2) := by
  induction n generalizing acc s with
  | zero => rfl
  | succ n ih => exact ih (add acc (read s).1) (read s).2

end Loops

/-! ### The code -/

/-- What the program can do to the world outside, whose states are `σ`. -/
structure Spi (σ : Type) where
  /-- `digitalWrite(IMU_CS_PIN, LOW)`. -/
  select : σ → σ
  /-- `digitalWrite(IMU_CS_PIN, HIGH)`. -/
  deselect : σ → σ
  /-- `SPI.transfer`: a byte there and a byte back. -/
  transfer : UInt8 → σ → UInt8 × σ
  /-- `delay`, in milliseconds. -/
  delay : ℕ → σ → σ

section Code

variable {σ : Type} (bus : Spi σ)

/-- `lsm6ds3_read_reg`. -/
def Spi.lsm6ds3ReadReg (reg : UInt8) (s : σ) : UInt8 × σ :=
  let s := bus.select s
  let s := (bus.transfer (reg ||| spiReadFlag) s).2
  let (val, s) := bus.transfer 0x00 s
  (val, bus.deselect s)

/-- `lsm6ds3_write_reg`. -/
def Spi.lsm6ds3WriteReg (reg val : UInt8) (s : σ) : σ :=
  let s := bus.select s
  let s := (bus.transfer (reg &&& ~~~spiReadFlag) s).2
  let s := (bus.transfer val s).2
  bus.deselect s

/-- `lsm6ds3_read_burst`, which returns what it leaves in `buf`. -/
def Spi.lsm6ds3ReadBurst (reg len : UInt8) (s : σ) : List UInt8 × σ :=
  let s := bus.select s
  let s := (bus.transfer (reg ||| spiReadFlag) s).2
  let (buf, s) := reads (bus.transfer 0x00) len.toNat s
  (buf, bus.deselect s)

/-- `lsm6ds3_init`. -/
def Spi.lsm6ds3Init (s : σ) : Bool × σ :=
  let (whoami, s) := bus.lsm6ds3ReadReg whoAmI s
  if whoami ≠ 0x69 then (false, s)
  else
    let s := bus.lsm6ds3WriteReg ctrl3C 0x01 s
    let s := bus.delay 10 s
    let s := bus.lsm6ds3WriteReg ctrl1XL 0x60 s
    let s := bus.lsm6ds3WriteReg ctrl2G 0x60 s
    let s := bus.lsm6ds3WriteReg ctrl3C 0x44 s
    let s := bus.delay 10 s
    (true, s)

/-- `lsm6ds3_read_burst(OUTX_L_G, buf, n)` into a `buf` of `n` bytes. -/
def Spi.readOut (n : ℕ) (s : σ) : (Fin n → UInt8) × σ :=
  let (buf, s) := bus.lsm6ds3ReadBurst outxLG (UInt8.ofNat n) s
  (fun i => buf.getD i 0, s)

/-- One pass of a sampling loop: 6 bytes, and a pause. -/
def Spi.readSample (s : σ) : GyroBurst × σ :=
  let (buf, s) := bus.readOut 6 s
  (buf, bus.delay 2 s)

variable {F : Type*} [Field F] [LinearOrder F]

/-- `lsm6ds3_calibrate_gyro`, which returns what it leaves in `gz_offset`. -/
def Spi.lsm6ds3CalibrateGyro (samples : ℤ) (s : σ) : F × σ :=
  let addRate (sum : F) (buf : GyroBurst) : F := sum + buf.rawGz * gyroSensitivity
  let s := bus.delay 2000 s
  let (sum, s) := loopReads bus.readSample addRate samples.toNat 0 s
  let gzOffset := sum / samples
  if 5 < |gzOffset| then
    let (sum, s) := loopReads bus.readSample addRate samples.toNat 0 s
    (sum / samples, s)
  else (gzOffset, s)

/-- `lsm6ds3_measure_noise`. -/
def Spi.lsm6ds3MeasureNoise (sqrtf : F → F) (gzOffset : F) (samples : ℤ) (s : σ) : F × σ :=
  let (sums, s) := loopReads bus.readSample (addSample gzOffset) samples.toNat (0, 0) s
  let mean := sums.1 / samples
  let stddev := sqrtf (sums.2 / samples - mean * mean)
  (stddev * 3, s)

/-- `imu_init`, up to the start of the timer: nothing if it ends in `while (1)`. -/
def Spi.imuInit (sqrtf : F → F) (imu : Imu F) (s : σ) : Option (Imu F × σ) :=
  let init := bus.lsm6ds3Init (bus.deselect s)
  if init.1 then
    let offset := bus.lsm6ds3CalibrateGyro 2000 init.2
    let zone := bus.lsm6ds3MeasureNoise sqrtf offset.1 500 offset.2
    some ({ imu with gzOffset := offset.1, gDeadzone := zone.1 }, zone.2)
  else none

variable [IsStrictOrderedRing F] [FloorRing F]

/-- `imu_update`, with its reads. -/
def Spi.imuUpdate (vrCmd : ℤ) (imu : Imu F) (s : σ) : (ℕ × Imu F) × σ :=
  let (ticks, imu) := claimTicks imu
  let (imu, s) := loopReads (bus.readOut 12)
    (imuTick imu.yawHoldEnabled imu.yawTarget vrCmd) ticks imu s
  ((ticks, imu), s)

end Code

/-! ### What they compute -/

/-- A list of readings, as a function of the place. -/
theorem map_getD_range {B : Type*} {l : List B} {n : ℕ} (h : l.length = n) (b : B) :
    (List.range n).map (fun i => l.getD i b) = l := by
  subst h
  exact List.ext_getElem (by simp) fun i h₁ h₂ => by simp [h₂]

/-- A gyro read, as a burst with 0 on the other axes. -/
def GyroBurst.toBurst (buf : GyroBurst) : Burst := fun i => if h : i.val < 6 then buf ⟨i, h⟩ else 0

section

variable {σ : Type} (bus : Spi σ) {F : Type*} [Field F] [LinearOrder F]

omit [LinearOrder F] in
/-- A series of samples adds up to their mean. -/
theorem meanRate_loopReads (n : ℕ) (s : σ) :
    (loopReads bus.readSample (fun (sum : F) (buf : GyroBurst) =>
        sum + buf.rawGz * gyroSensitivity) n 0 s).1 / (n : ℤ) =
      meanRate ((reads bus.readSample n s).1.map GyroBurst.toBurst) := by
  rw [loopReads_eq, meanRate, List.length_map, length_reads, List.map_map, List.sum_eq_foldl,
    List.foldl_map, Int.cast_natCast]
  rfl

/-- The calibration takes its offset from one series of samples, or from a second one. -/
theorem calibrateGyro_bus (n : ℕ) {s : σ} {first second : List GyroBurst × σ}
    (hfirst : first = reads bus.readSample n (bus.delay 2000 s))
    (hsecond : second = reads bus.readSample n first.2) :
    bus.lsm6ds3CalibrateGyro n s =
      ((lsm6ds3CalibrateGyro (first.1.map GyroBurst.toBurst) (second.1.map GyroBurst.toBurst) : F),
        if 5 < |(meanRate (first.1.map GyroBurst.toBurst) : F)| then second.2 else first.2) := by
  have hrate : (meanRate (first.1.map GyroBurst.toBurst) : F) = _ :=
    hfirst ▸ (meanRate_loopReads bus n (bus.delay 2000 s)).symm
  have hrate' : (meanRate (second.1.map GyroBurst.toBurst) : F) = _ :=
    hsecond ▸ (meanRate_loopReads bus n first.2).symm
  rw [lsm6ds3CalibrateGyro, hrate, hrate', hsecond, hfirst, Spi.lsm6ds3CalibrateGyro]
  simp only [Int.toNat_natCast, loopReads_eq]
  split_ifs <;> rfl

omit [LinearOrder F] in
/-- The dead zone is measured from one series of samples. -/
theorem measureNoise_bus (sqrtf : F → F) (gzOffset : F) (n : ℕ) {s : σ}
    {noise : List GyroBurst × σ} (hnoise : noise = reads bus.readSample n s) :
    bus.lsm6ds3MeasureNoise sqrtf gzOffset n s =
      (lsm6ds3MeasureNoise sqrtf gzOffset n fun i => noise.1.getD i fun _ => 0, noise.2) := by
  have hlen : noise.1.length = n := hnoise ▸ length_reads bus.readSample n s
  rw [lsm6ds3MeasureNoise, noiseRadicand, Int.toNat_natCast, map_getD_range hlen,
    Spi.lsm6ds3MeasureNoise, loopReads_eq, Int.toNat_natCast, hnoise]

/-- The setup of the sensor succeeds exactly when the sensor names itself. -/
theorem lsm6ds3Init_eq_true_iff (s : σ) :
    (bus.lsm6ds3Init s).1 = true ↔ (bus.lsm6ds3ReadReg whoAmI s).1 = 0x69 := by
  unfold Spi.lsm6ds3Init
  dsimp only
  split_ifs with h
  · simpa using h
  · simpa using h

/-- Otherwise `imu_init` ends in the endless loop. -/
theorem imuInit_eq_none_iff (sqrtf : F → F) (imu : Imu F) (s : σ) :
    bus.imuInit sqrtf imu s = none ↔
      (bus.lsm6ds3ReadReg whoAmI (bus.deselect s)).1 ≠ 0x69 := by
  rw [Ne, ← lsm6ds3Init_eq_true_iff, Spi.imuInit]
  split_ifs with h <;> simp [h]

/-- The readings of `imu_init` that starts at `s`: two series for the calibration, each from the
state that the reads before it have left, and one for the noise. -/
structure InitReadings (F : Type*) [Field F] [LinearOrder F] (s : σ)
    (first second noise : List GyroBurst × σ) : Prop where
  first_eq : first =
    reads bus.readSample 2000 (bus.delay 2000 (bus.lsm6ds3Init (bus.deselect s)).2)
  second_eq : second = reads bus.readSample 2000 first.2
  /-- The second series is read only if the mean of the first exceeds 5. -/
  noise_eq : noise = reads bus.readSample 500
    (if 5 < |(meanRate (first.1.map GyroBurst.toBurst) : F)| then second.2 else first.2)

/-- What `imu_init` leaves is what the calibration and the measurement after it have found. -/
theorem imuInit_eq_some {sqrtf : F → F} {imu imu' : Imu F} {s s' : σ}
    (h : bus.imuInit sqrtf imu s = some (imu', s')) :
    ∃ first second noise, InitReadings bus F s first second noise ∧ s' = noise.2 ∧
      imu' = { imu with
        gzOffset := lsm6ds3CalibrateGyro (first.1.map GyroBurst.toBurst)
          (second.1.map GyroBurst.toBurst)
        gDeadzone := lsm6ds3MeasureNoise sqrtf (lsm6ds3CalibrateGyro
          (first.1.map GyroBurst.toBurst) (second.1.map GyroBurst.toBurst)) 500
          fun i => noise.1.getD i fun _ => 0 } := by
  obtain ⟨first, second, noise, hreadings⟩ :
      ∃ first second noise, InitReadings bus F s first second noise :=
    ⟨_, _, _, rfl, rfl, rfl⟩
  have hoffset := calibrateGyro_bus (F := F) bus 2000 hreadings.first_eq hreadings.second_eq
  have hzone := measureNoise_bus bus sqrtf (lsm6ds3CalibrateGyro
    (first.1.map GyroBurst.toBurst) (second.1.map GyroBurst.toBurst)) 500 hreadings.noise_eq
  push_cast at hoffset hzone
  rw [Spi.imuInit, hoffset] at h
  dsimp only at h
  rw [hzone] at h
  split_ifs at h
  obtain ⟨rfl, rfl⟩ := Prod.mk.inj (Option.some.inj h)
  exact ⟨first, second, noise, hreadings, rfl, rfl⟩

variable [IsStrictOrderedRing F]

variable [FloorRing F]

/-- One call of `imu_update` processes the bursts it reads, one for each tick it claims. -/
theorem imuUpdate_bus (vrCmd : ℤ) (imu : Imu F) (s : σ) :
    bus.imuUpdate vrCmd imu s =
      (imuUpdate vrCmd (fun i => (reads (bus.readOut 12) (claimTicks imu).1 s).1.getD i fun _ => 0)
        imu, (reads (bus.readOut 12) (claimTicks imu).1 s).2) := by
  have hlen := length_reads (bus.readOut 12) (claimTicks imu).1 s
  rw [Spi.imuUpdate, imuUpdate]
  simp only [loopReads_eq, map_getD_range hlen]
  rfl

end
