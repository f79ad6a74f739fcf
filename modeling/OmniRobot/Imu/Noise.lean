import OmniRobot.Imu.Update
import OmniRobot.Numeric.Variance

/-!
# The dead zone

`lsm6ds3_measure_noise` measures the yaw rate of a robot that stands still and takes three standard
deviations of it for the dead zone. It sums the rates and their squares in one pass and subtracts
the square of the mean from the mean square, which is the variance of the raw readings but for the
square of the sensitivity.

## Main results

* `noiseRadicand_eq`: what the square root is taken of;
* `noiseRadicand_variance`: it is never negative, 0 for equal readings only, and does not depend on
  the offset or the order;
* `lsm6ds3MeasureNoise_mul_self`: so the dead zone is a number.
-/

/-- The 6 bytes of a gyro read: three axes, low byte first. -/
abbrev GyroBurst := Fin 6 → UInt8

/-- The raw yaw rate of a gyro read. -/
def GyroBurst.rawGz (buf : GyroBurst) : ℤ := int16OfBytes (buf 5) (buf 4)

section

variable {F : Type*} [Field F]

/-! ### The code -/

/-- The `gz` of a gyro read. -/
def sampleRate (gzOffset : F) (buf : GyroBurst) : F := buf.rawGz * gyroSensitivity - gzOffset

/-- One pass of the loop of `lsm6ds3_measure_noise`, on `sum` and `sum_sq`. -/
def addSample (gzOffset : F) (sums : F × F) (buf : GyroBurst) : F × F :=
  let gz := sampleRate gzOffset buf
  (sums.1 + gz, sums.2 + gz * gz)

/-- The argument of `sqrtf` in `lsm6ds3_measure_noise`, when the gyro reads are `reads`. -/
def noiseRadicand (gzOffset : F) (samples : ℤ) (reads : ℕ → GyroBurst) : F :=
  let sums := ((List.range samples.toNat).map reads).foldl (addSample gzOffset) (0, 0)
  let mean := sums.1 / samples
  sums.2 / samples - mean * mean

/-- `lsm6ds3_measure_noise`: three standard deviations. -/
def lsm6ds3MeasureNoise (sqrtf : F → F) (gzOffset : F) (samples : ℤ) (reads : ℕ → GyroBurst) : F :=
  sqrtf (noiseRadicand gzOffset samples reads) * 3

/-! ### The radicand -/

/-- The raw readings of a measurement. -/
def rawReadings (samples : ℤ) (reads : ℕ → GyroBurst) : List ℤ :=
  (List.range samples.toNat).map fun i => (reads i).rawGz

theorem cast_rawReadings_ne_nil {samples : ℤ} (hsamples : 0 < samples) (reads : ℕ → GyroBurst) :
    (rawReadings samples reads).map (Int.cast : ℤ → F) ≠ [] := by
  apply List.ne_nil_of_length_pos
  rw [List.length_map, rawReadings, List.length_map, List.length_range]
  omega

/-- The loop adds up the rates and their squares. -/
theorem foldl_addSample (gzOffset : F) (bufs : List GyroBurst) (sums : F × F) :
    bufs.foldl (addSample gzOffset) sums =
      (sums.1 + (bufs.map (sampleRate gzOffset)).sum,
        sums.2 + ((bufs.map (sampleRate gzOffset)).map fun gz => gz * gz).sum) := by
  induction bufs generalizing sums with
  | nil => simp
  | cons buf bufs ih => simp [ih, addSample, add_assoc]

variable [CharZero F] {samples : ℤ} (hsamples : 0 < samples) (gzOffset : F)
  (reads : ℕ → GyroBurst)

include hsamples

/-- What the square root is taken of: the variance of the readings, in square degrees per second. -/
theorem noiseRadicand_eq :
    noiseRadicand gzOffset samples reads =
      gyroSensitivity ^ 2 * Sample.variance ((rawReadings samples reads).map Int.cast) := by
  set raw : List F := (rawReadings samples reads).map Int.cast
  set rates : List F := ((List.range samples.toNat).map reads).map (sampleRate gzOffset)
  have hlen : (rates.length : F) = samples := by
    rw [List.length_map, List.length_map, List.length_range, ← Int.cast_natCast,
      Int.toNat_of_nonneg hsamples.le]
  have hraw : raw ≠ [] := cast_rawReadings_ne_nil hsamples reads
  have hrates : rates = raw.map fun x => gyroSensitivity * x - gzOffset := by
    simp [rates, raw, rawReadings, sampleRate, Function.comp_def, mul_comm]
  calc noiseRadicand gzOffset samples reads
      = Sample.mean (rates.map fun gz => gz * gz) - Sample.mean rates * Sample.mean rates := by
        rw [noiseRadicand, foldl_addSample, Sample.mean, Sample.mean, List.length_map, hlen]
        simp [rates]
    _ = Sample.variance rates := by
        rw [Sample.variance_eq_sub]
        simpa [hrates] using hraw
    _ = gyroSensitivity ^ 2 * Sample.variance raw := by
        rw [hrates, Sample.variance_map_affine hraw]

end

section

variable {F : Type*} [Field F] [LinearOrder F] [IsStrictOrderedRing F] {samples : ℤ}
  (hsamples : 0 < samples) (gzOffset : F) (reads : ℕ → GyroBurst)

include hsamples

theorem noiseRadicand_nonneg : 0 ≤ noiseRadicand gzOffset samples reads := by
  rw [noiseRadicand_eq hsamples]
  exact mul_nonneg (sq_nonneg _) (Sample.variance_nonneg _)

/-- It is 0 for equal readings only. -/
theorem noiseRadicand_eq_zero :
    noiseRadicand gzOffset samples reads = 0 ↔
      ∀ i j : ℕ, i < samples → j < samples → (reads i).rawGz = (reads j).rawGz := by
  have hsensitivity : (gyroSensitivity : F) ≠ 0 := by norm_num [gyroSensitivity]
  have hmem : ∀ i : ℕ, (i : ℤ) < samples ↔ i ∈ List.range samples.toNat := by
    intro i
    rw [List.mem_range]
    omega
  rw [noiseRadicand_eq hsamples, mul_eq_zero, or_iff_right (pow_ne_zero 2 hsensitivity),
    Sample.variance_eq_zero (cast_rawReadings_ne_nil hsamples reads)]
  constructor
  · intro h i j hi hj
    have hcast : ((reads i).rawGz : F) = (reads j).rawGz :=
      h _ (List.mem_map_of_mem (List.mem_map_of_mem ((hmem i).mp hi)))
        _ (List.mem_map_of_mem (List.mem_map_of_mem ((hmem j).mp hj)))
    exact_mod_cast hcast
  · intro h x hx y hy
    rw [rawReadings, List.map_map, List.mem_map] at hx hy
    obtain ⟨i, hi, rfl⟩ := hx
    obtain ⟨j, hj, rfl⟩ := hy
    exact congrArg Int.cast (h i j ((hmem i).mpr hi) ((hmem j).mpr hj))

/-- The radicand of the dead zone. However many samples are taken, whatever they are and whatever
the offset, it is the population variance of the raw readings, in square degrees per second. So it
is never negative, neither the offset nor the order of the readings matters, and it is 0 only for
equal readings. -/
theorem noiseRadicand_variance :
    noiseRadicand gzOffset samples reads =
        gyroSensitivity ^ 2 * Sample.variance ((rawReadings samples reads).map Int.cast) ∧
      0 ≤ noiseRadicand gzOffset samples reads ∧
      (∀ (gzOffset' : F) (reads' : ℕ → GyroBurst),
        (rawReadings samples reads').Perm (rawReadings samples reads) →
          noiseRadicand gzOffset' samples reads' = noiseRadicand gzOffset samples reads) ∧
      (noiseRadicand gzOffset samples reads = 0 ↔
        ∀ i j : ℕ, i < samples → j < samples → (reads i).rawGz = (reads j).rawGz) := by
  refine ⟨noiseRadicand_eq hsamples gzOffset reads, noiseRadicand_nonneg hsamples gzOffset reads,
    fun gzOffset' reads' hperm => ?_, noiseRadicand_eq_zero hsamples gzOffset reads⟩
  rw [noiseRadicand_eq hsamples, noiseRadicand_eq hsamples, Sample.variance_perm (hperm.map _)]

/-- With any square root of the numbers from 0 on, the dead zone is three standard deviations. -/
theorem lsm6ds3MeasureNoise_mul_self {sqrtf : F → F} (hsqrt : ∀ x, 0 ≤ x → sqrtf x * sqrtf x = x) :
    lsm6ds3MeasureNoise sqrtf gzOffset samples reads *
        lsm6ds3MeasureNoise sqrtf gzOffset samples reads =
      (3 * gyroSensitivity) ^ 2 * Sample.variance ((rawReadings samples reads).map Int.cast) := by
  have hroot := hsqrt _ (noiseRadicand_nonneg hsamples gzOffset reads)
  calc lsm6ds3MeasureNoise sqrtf gzOffset samples reads *
        lsm6ds3MeasureNoise sqrtf gzOffset samples reads
      = 3 ^ 2 * (sqrtf (noiseRadicand gzOffset samples reads) *
          sqrtf (noiseRadicand gzOffset samples reads)) := by
        rw [lsm6ds3MeasureNoise]
        ring
    _ = (3 * gyroSensitivity) ^ 2 *
          Sample.variance ((rawReadings samples reads).map Int.cast) := by
        rw [hroot, noiseRadicand_eq hsamples]
        ring

end

/-- Two readings, 2 and 4, with variance 1. -/
def twoReads (i : ℕ) : GyroBurst := fun j => if j = 4 then (if i = 0 then 2 else 4) else 0

/-- Their order and the offset do not matter. -/
theorem noiseRadicand_variance_twoReads :
    noiseRadicand (5 : ℚ) 2 twoReads = gyroSensitivity ^ 2 * 1 ∧
      noiseRadicand (-1 : ℚ) 2 (fun i => twoReads (1 - i)) = noiseRadicand (5 : ℚ) 2 twoReads := by
  obtain ⟨hvariance, -, hperm, -⟩ :=
    noiseRadicand_variance (show (0 : ℤ) < 2 by decide) (5 : ℚ) twoReads
  refine ⟨hvariance.trans ?_, hperm (-1) (fun i => twoReads (1 - i)) (by decide)⟩
  congr 1
  decide +kernel
