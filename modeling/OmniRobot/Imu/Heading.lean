import OmniRobot.Imu.YawHold

/-!
# The heading as an integral

The ticks add up what the gyro reports outside the dead zone, one millisecond at a time. A step is
so short that one correction brings the heading back into `[-180, 180]`, so the heading is the sum
of all steps up to whole turns.

## Main results

* `int16OfBytes_eq`: the raw yaw rate is the two's complement value of its two bytes;
* `abs_lsm6ds3CalibrateGyro_le`: how large an offset the calibration can leave;
* `integrateYaw_spec`: one tick;
* `yawAfter_spec`: any number of ticks.
-/

/-- The two's complement value of two bytes, low byte first. -/
def twosComplement16 (lo hi : UInt8) : ℤ :=
  let n : ℤ := lo.toNat + 256 * hi.toNat
  if n < 2 ^ 15 then n else n - 2 ^ 16

theorem twosComplement16_bounds (lo hi : UInt8) :
    -32768 ≤ twosComplement16 lo hi ∧ twosComplement16 lo hi ≤ 32767 := by
  have hlo := lo.toNat_lt
  have hhi := hi.toNat_lt
  unfold twosComplement16
  dsimp only
  split_ifs <;> omega

/-- The shift and the cast to `int16_t` decode two's complement. -/
theorem int16OfBytes_eq (hi lo : UInt8) : int16OfBytes hi lo = twosComplement16 lo hi := by
  have hlo : lo.toNat < 256 := lo.toNat_lt
  have hhi : hi.toNat < 256 := hi.toNat_lt
  -- the shifted byte and the low byte do not overlap
  have hor : hi.toNat <<< 8 ||| lo.toNat = hi.toNat * 256 + lo.toNat := by
    rw [← Nat.shiftLeft_add_eq_or_of_lt hlo, Nat.shiftLeft_eq]
  unfold int16OfBytes twosComplement16
  simp only [hor, Int.bmod_def]
  split_ifs <;> omega

section

variable {F : Type*} [Field F] [LinearOrder F]

/-- The yaw rate that a burst reports, in degrees per second, less the offset. -/
def Burst.rate (offset : F) (buf : Burst) : F :=
  0.00875 * (twosComplement16 (buf 4) (buf 5) : F) - offset

/-- A mean of scaled raw yaw rates, as the calibration takes it. -/
def meanRate (bufs : List Burst) : F :=
  (bufs.map fun buf => (buf.rawGz : F) * gyroSensitivity).sum / bufs.length

/-- `lsm6ds3_calibrate_gyro`: the offset measured from its bursts, or from a second series of them
if the first is too large. -/
def lsm6ds3CalibrateGyro (first second : List Burst) : F :=
  if 5 < |(meanRate first : F)| then meanRate second else meanRate first

/-- What one burst adds to the heading. -/
def Burst.turn (offset deadzone : F) (buf : Burst) : F :=
  if deadzone < |buf.rate offset| then 0.001 * buf.rate offset else 0

/-- The sum of the turns of all bursts whose rate exceeds the dead zone. -/
def totalTurn (offset deadzone : F) (bufs : List Burst) : F :=
  ((bufs.filter fun buf => deadzone < |buf.rate offset|).map fun buf =>
    0.001 * buf.rate offset).sum

theorem totalTurn_cons (offset deadzone : F) (buf : Burst) (bufs : List Burst) :
    totalTurn offset deadzone (buf :: bufs) =
      buf.turn offset deadzone + totalTurn offset deadzone bufs := by
  unfold totalTurn Burst.turn
  rw [List.filter_cons]
  split_ifs <;> simp_all

variable [IsStrictOrderedRing F]

theorem correctedRate_eq (offset : F) (buf : Burst) :
    correctedRate offset buf = buf.rate offset := by
  have hgain : (gyroSensitivity : F) = 0.00875 := by
    rw [gyroSensitivity]
    norm_num
  rw [correctedRate, Burst.rawGz, int16OfBytes_eq, hgain, mul_comm, Burst.rate]

/-- The fastest turn the sensor can report. -/
theorem abs_rawRate_le (buf : Burst) : |(buf.rawGz : F) * gyroSensitivity| ≤ 286.72 := by
  obtain ⟨hlo, hhi⟩ := twosComplement16_bounds (buf 4) (buf 5)
  rw [← int16OfBytes_eq] at hlo hhi
  have hlo' : (-32768 : F) ≤ (buf.rawGz : F) := by exact_mod_cast hlo
  have hhi' : (buf.rawGz : F) ≤ 32767 := by exact_mod_cast hhi
  rw [gyroSensitivity, abs_le]
  norm_num
  constructor <;> linarith

/-- The offset of a mean of such turns may add as much. -/
theorem abs_rate_le {offset : F} (h : |offset| ≤ 286.72) (buf : Burst) :
    |buf.rate offset| ≤ 573.44 := by
  rw [← correctedRate_eq, correctedRate]
  calc |(buf.rawGz : F) * gyroSensitivity - offset|
      ≤ |(buf.rawGz : F) * gyroSensitivity| + |offset| := abs_sub _ _
    _ ≤ 286.72 + 286.72 := add_le_add (abs_rawRate_le buf) h
    _ = 573.44 := by norm_num

/-- A mean of raw yaw rates is no larger than the largest of them. -/
theorem abs_meanRate_le (bufs : List Burst) : |(meanRate bufs : F)| ≤ 286.72 := by
  have hsum : |(bufs.map fun buf => (buf.rawGz : F) * gyroSensitivity).sum| ≤
      286.72 * bufs.length := by
    induction bufs with
    | nil => simp
    | cons buf bufs ih =>
      have hrate := abs_rawRate_le (F := F) buf
      rw [List.map_cons, List.sum_cons, List.length_cons]
      push_cast
      exact (abs_add_le _ _).trans (by linarith)
  rw [meanRate, abs_div, Nat.abs_cast]
  exact div_le_of_le_mul₀ (Nat.cast_nonneg _) (by norm_num) hsum

/-- A calibration leaves an offset that a tick allows for. -/
theorem abs_lsm6ds3CalibrateGyro_le (first second : List Burst) :
    |(lsm6ds3CalibrateGyro first second : F)| ≤ 286.72 := by
  unfold lsm6ds3CalibrateGyro
  split_ifs <;> exact abs_meanRate_le _

variable [FloorRing F]

/-- One tick turns the heading by what its burst adds, up to a whole turn, and one correction is
enough. -/
theorem integrateYaw_spec {offset : F} (hoff : |offset| ≤ 286.72) (deadzone : F) (buf : Burst)
    {yaw : F} (hyaw : |yaw| ≤ 180) :
    |integrateYaw deadzone (correctedRate offset buf) yaw| ≤ 180 ∧
      ∃ k : ℤ, integrateYaw deadzone (correctedRate offset buf) yaw =
        yaw + buf.turn offset deadzone + 360 * k := by
  rw [correctedRate_eq, integrateYaw, Burst.turn]
  by_cases hdz : deadzone < |buf.rate offset|
  · rw [if_pos hdz, if_pos hdz]
    -- a step is shorter than a turn, so the corrected heading is in range
    obtain ⟨hlo, hhi⟩ := abs_le.mp (abs_rate_le hoff buf)
    obtain ⟨hyaw₁, hyaw₂⟩ := abs_le.mp hyaw
    have hstep : buf.rate offset * dt = 0.001 * buf.rate offset := by
      rw [dt]
      norm_num
      ring
    rw [hstep]
    norm_num at hlo hhi ⊢
    rw [abs_le]
    split_ifs
    · exact ⟨⟨by linarith, by linarith⟩, 0, by push_cast; ring⟩
    · exact ⟨⟨by linarith, by linarith⟩, -1, by push_cast; ring⟩
    · exact ⟨⟨by linarith, by linarith⟩, 1, by push_cast; ring⟩
    · exact ⟨⟨by linarith, by linarith⟩, 0, by push_cast; ring⟩
  · rw [if_neg hdz, if_neg hdz]
    exact ⟨hyaw, 0, by simp⟩

/-- Any number of ticks turn the heading by the sum of what their bursts add. -/
theorem yawAfter_spec {offset : F} (hoff : |offset| ≤ 286.72) (deadzone : F) (bufs : List Burst)
    {yaw : F} (hyaw : |yaw| ≤ 180) :
    |yawAfter offset deadzone yaw bufs| ≤ 180 ∧
      ∃ k : ℤ, yawAfter offset deadzone yaw bufs =
        yaw + totalTurn offset deadzone bufs + 360 * k := by
  induction bufs generalizing yaw with
  | nil => exact ⟨hyaw, 0, by simp [yawAfter, totalTurn]⟩
  | cons buf bufs ih =>
    obtain ⟨hstep, j, hj⟩ := integrateYaw_spec hoff deadzone buf hyaw
    obtain ⟨hrest, k, hk⟩ := ih hstep
    refine ⟨hrest, j + k, ?_⟩
    calc yawAfter offset deadzone yaw (buf :: bufs)
        = integrateYaw deadzone (correctedRate offset buf) yaw +
            totalTurn offset deadzone bufs + 360 * k := hk
      _ = yaw + totalTurn offset deadzone (buf :: bufs) + 360 * ((j + k : ℤ) : F) := by
          rw [hj, totalTurn_cons]
          push_cast
          ring

end
