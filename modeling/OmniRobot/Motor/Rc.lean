import OmniRobot.Crsf.Soundness

/-!
# From channel values to commands

`mapRC` turns a channel value into a command between `-speed` and `speed`. It takes a value
outside 900..2100 for a missing signal and returns 0, so the order of the stick is kept exactly
where the decoder's values fall in that range, and not at the extremes of the 11-bit codes.

## Main results

* `mapRC_mono`: `mapRC` keeps the order of the values it accepts;
* `abs_mapRC_le`: no command exceeds the speed;
* `mapRC_mirror`: how far equal deflections to the two sides of the centre give opposite commands;
* `mapRC_convert`: order and bound, and the codes without signal, for the values a frame can carry;
* `mapRC_convert_drops`: two codes for which pushing the stick further drops the command.
-/

/-! ### Arduino's `map` -/

/-- A 32-bit `long`. -/
def int32 (x : ℤ) : ℤ := x.bmod (2 ^ 32)

theorem int32_eq {x : ℤ} (h₀ : 0 ≤ x) (h : x < 2 ^ 31) : int32 x = x :=
  Int.bmod_eq_of_le (by omega) (by omega)

/-- Arduino's `map`: a rational rescaling in 32-bit arithmetic, with truncating division. -/
def arduinoMap (x inMin inMax outMin outMax : ℤ) : ℤ :=
  (int32 ((x - inMin) * (outMax - outMin))).tdiv (inMax - inMin) + outMin

/-- `mapRC`. -/
def mapRC (rawValue : UInt16) (speed : ℤ) : ℤ :=
  let deadZone := 8
  let minRc := 900
  let maxRc := 2100
  -- "out of range, return 0 - no signal"
  if (rawValue.toNat : ℤ) < minRc ∨ maxRc < (rawValue.toNat : ℤ) then 0
  else
    let mapped := arduinoMap rawValue.toNat minRc maxRc (-speed) speed
    if |mapped| < deadZone then 0 else mapped

/-- A value that `mapRC` takes for a signal. -/
def HasSignal (rawValue : UInt16) : Prop := 900 ≤ rawValue.toNat ∧ rawValue.toNat ≤ 2100

theorem mapRC_of_not_hasSignal {raw : UInt16} (h : ¬ HasSignal raw) (speed : ℤ) :
    mapRC raw speed = 0 := by
  have hout : (raw.toNat : ℤ) < 900 ∨ 2100 < (raw.toNat : ℤ) := by
    rw [HasSignal] at h
    omega
  unfold mapRC
  rw [if_pos hout]

section Speed

variable {speed : ℤ} (hspeed : 0 ≤ speed) (hfit : 2400 * speed < 2 ^ 31)

include hspeed hfit

/-- Within the accepted range nothing overflows. -/
theorem mapRC_of_hasSignal {raw : UInt16} (h : HasSignal raw) :
    ∃ m : ℤ, m = ((raw.toNat : ℤ) - 900) * (2 * speed) / 1200 - speed ∧
      mapRC raw speed = if |m| < 8 then 0 else m := by
  obtain ⟨h₉₀₀, h₂₁₀₀⟩ := h
  have hdelta : 0 ≤ ((raw.toNat : ℤ) - 900) * (2 * speed) := mul_nonneg (by omega) (by omega)
  -- the product is largest at the upper end of the range
  have hlt : ((raw.toNat : ℤ) - 900) * (2 * speed) < 2 ^ 31 := by
    calc ((raw.toNat : ℤ) - 900) * (2 * speed) ≤ 1200 * (2 * speed) :=
          mul_le_mul_of_nonneg_right (by omega) (by omega)
      _ < 2 ^ 31 := by omega
  have hmap : arduinoMap raw.toNat 900 2100 (-speed) speed =
      ((raw.toNat : ℤ) - 900) * (2 * speed) / 1200 - speed := by
    rw [arduinoMap, show speed - -speed = 2 * speed by ring, int32_eq hdelta hlt,
      Int.tdiv_eq_ediv_of_nonneg hdelta]
    rfl
  have hin : ¬ ((raw.toNat : ℤ) < 900 ∨ 2100 < (raw.toNat : ℤ)) := by omega
  refine ⟨_, rfl, ?_⟩
  unfold mapRC
  rw [if_neg hin, hmap]

/-- `mapRC` keeps the order of the values it accepts. -/
theorem mapRC_mono {raw₁ raw₂ : UInt16} (h₁ : HasSignal raw₁) (h₂ : HasSignal raw₂)
    (h : raw₁.toNat ≤ raw₂.toNat) : mapRC raw₁ speed ≤ mapRC raw₂ speed := by
  obtain ⟨m₁, hm₁, hmap₁⟩ := mapRC_of_hasSignal hspeed hfit h₁
  obtain ⟨m₂, hm₂, hmap₂⟩ := mapRC_of_hasSignal hspeed hfit h₂
  have hle : m₁ ≤ m₂ := by
    rw [hm₁, hm₂]
    have hmul : ((raw₁.toNat : ℤ) - 900) * (2 * speed) ≤ ((raw₂.toNat : ℤ) - 900) * (2 * speed) :=
      mul_le_mul_of_nonneg_right (by omega) (by omega)
    have := Int.ediv_le_ediv (show (0 : ℤ) < 1200 by decide) hmul
    omega
  -- the dead zone sends an interval around 0 to 0
  rw [hmap₁, hmap₂]
  simp only [abs_lt]
  split_ifs <;> omega

/-- No command exceeds the speed. -/
theorem abs_mapRC_le (raw : UInt16) : |mapRC raw speed| ≤ speed := by
  by_cases h : HasSignal raw
  · obtain ⟨m, hm, hmap⟩ := mapRC_of_hasSignal hspeed hfit h
    obtain ⟨h₉₀₀, h₂₁₀₀⟩ := h
    have h₀ : 0 ≤ ((raw.toNat : ℤ) - 900) * (2 * speed) := mul_nonneg (by omega) (by omega)
    have h₁ : ((raw.toNat : ℤ) - 900) * (2 * speed) ≤ 1200 * (2 * speed) :=
      mul_le_mul_of_nonneg_right (by omega) (by omega)
    rw [hmap, abs_le]
    split_ifs <;> omega
  · -- without a signal the command is 0
    rw [mapRC_of_not_hasSignal h, abs_zero]
    exact hspeed

/-- Two sides of the stick. Where the rescaling of a value leaves no remainder, the value mirrored
in the centre gives the opposite command. Elsewhere both are rounded down, so the commands differ
by one unit in size, except that both may fall into the dead zone, and that one may fall into it
while the other is just outside, at -8. -/
theorem mapRC_mirror {raw : UInt16} (h : HasSignal raw) :
    (1200 ∣ ((raw.toNat : ℤ) - 900) * (2 * speed) →
      mapRC (3000 - raw) speed = -mapRC raw speed) ∧
    (¬ 1200 ∣ ((raw.toNat : ℤ) - 900) * (2 * speed) →
      (mapRC raw speed = 0 ∧ mapRC (3000 - raw) speed = 0) ∨
      (mapRC raw speed ≠ 0 ∧ mapRC (3000 - raw) speed ≠ 0 ∧
        mapRC (3000 - raw) speed = -mapRC raw speed - 1) ∨
      (mapRC raw speed = 0 ∧ mapRC (3000 - raw) speed = -8) ∨
      (mapRC raw speed = -8 ∧ mapRC (3000 - raw) speed = 0)) := by
  have hmirror : (3000 - raw).toNat = 3000 - raw.toNat := by
    obtain ⟨-, hhi⟩ := h
    rw [UInt16.toNat_sub_of_le _ _ (UInt16.le_iff_toNat_le.mpr (by simpa using by omega))]
    rfl
  have h' : HasSignal (3000 - raw) := by
    obtain ⟨hlo, hhi⟩ := h
    exact ⟨by omega, by omega⟩
  obtain ⟨m, hm, hmap⟩ := mapRC_of_hasSignal hspeed hfit h
  obtain ⟨m', hm', hmap'⟩ := mapRC_of_hasSignal hspeed hfit h'
  -- the product of the mirrored value is what the product of the value leaves of the full range
  have hsplit : (((3000 - raw).toNat : ℤ) - 900) * (2 * speed) =
      1200 * (2 * speed) - ((raw.toNat : ℤ) - 900) * (2 * speed) := by
    obtain ⟨-, hhi⟩ := h
    rw [hmirror, Nat.cast_sub (by omega)]
    push_cast
    ring
  rw [hsplit] at hm'
  generalize ((raw.toNat : ℤ) - 900) * (2 * speed) = d at hm hm' ⊢
  rw [hmap, hmap']
  simp only [abs_lt]
  constructor
  · intro hdvd
    -- no remainder is lost on either side
    have hopp : m' = -m := by omega
    split_ifs <;> omega
  · intro hdvd
    -- both sides are rounded down
    have hopp : m' = -m - 1 := by omega
    split_ifs <;> omega

end Speed

/-- A deflection of 200 at full speed is rescaled with a remainder. -/
theorem mapRC_mirror_boost :
    (1200 ∣ (((1700 : UInt16).toNat : ℤ) - 900) * (2 * 250) →
      mapRC (3000 - 1700) 250 = -mapRC 1700 250) ∧
    (¬ 1200 ∣ (((1700 : UInt16).toNat : ℤ) - 900) * (2 * 250) →
      (mapRC 1700 250 = 0 ∧ mapRC (3000 - 1700) 250 = 0) ∨
      (mapRC 1700 250 ≠ 0 ∧ mapRC (3000 - 1700) 250 ≠ 0 ∧
        mapRC (3000 - 1700) 250 = -mapRC 1700 250 - 1) ∨
      (mapRC 1700 250 = 0 ∧ mapRC (3000 - 1700) 250 = -8) ∨
      (mapRC 1700 250 = -8 ∧ mapRC (3000 - 1700) 250 = 0)) :=
  mapRC_mirror (by decide) (by decide) ⟨by decide, by decide⟩

/-- A deflection of 100 at full speed gives 41 to one side and -42 to the other. -/
theorem mapRC_mirror_fails :
    ¬ ∀ (speed : ℤ) (raw : UInt16), 0 ≤ speed → 2400 * speed < 2 ^ 31 →
      900 ≤ raw.toNat → raw.toNat ≤ 2100 → mapRC (3000 - raw) speed = -mapRC raw speed := by
  intro h
  have hboost := h 250 1600 (by decide) (by decide) (by decide) (by decide)
  revert hboost
  decide

/-! ### A centred stick -/

/-- No signal, or a deflection that gives no command even at the fastest speed limit, 250. -/
def Centred (raw : UInt16) : Prop := HasSignal raw → 1484 ≤ raw.toNat ∧ raw.toNat ≤ 1519

instance (raw : UInt16) : Decidable (Centred raw) := by
  unfold Centred HasSignal
  infer_instance

/-- A centred stick gives no command at any speed limit. -/
theorem mapRC_of_centred {raw : UInt16} (h : Centred raw) {speed : ℤ} (h₀ : 0 ≤ speed)
    (h₂₅₀ : speed ≤ 250) : mapRC raw speed = 0 := by
  by_cases hsignal : HasSignal raw
  · obtain ⟨m, hm, hmap⟩ := mapRC_of_hasSignal h₀ (by omega) hsignal
    obtain ⟨hlo, hhi⟩ := h hsignal
    -- a deflection by -16 to 19 is scaled to less than 8 units
    have hsplit : ((raw.toNat : ℤ) - 900) * (2 * speed) =
        ((raw.toNat : ℤ) - 1500) * (2 * speed) + speed * 1200 := by ring
    have hle : ((raw.toNat : ℤ) - 1500) * (2 * speed) ≤ 19 * (2 * speed) :=
      mul_le_mul_of_nonneg_right (by omega) (by omega)
    have hge : -16 * (2 * speed) ≤ ((raw.toNat : ℤ) - 1500) * (2 * speed) :=
      mul_le_mul_of_nonneg_right (by omega) (by omega)
    rw [hsplit, Int.add_mul_ediv_right _ _ (by decide)] at hm
    rw [hmap, if_pos (abs_lt.mpr ⟨by omega, by omega⟩)]
  · exact mapRC_of_not_hasSignal hsignal speed

/-- Any other stick tells the slowest speed limit from the fastest. -/
theorem mapRC_ne_of_not_centred {raw : UInt16} (h : ¬ Centred raw) :
    mapRC raw 114 ≠ mapRC raw 250 := by
  rw [Centred, Classical.not_imp, not_and_or] at h
  obtain ⟨hsignal, hout⟩ := h
  obtain ⟨m, hm, hmap⟩ := mapRC_of_hasSignal (show (0 : ℤ) ≤ 114 by decide) (by decide) hsignal
  obtain ⟨m', hm', hmap'⟩ := mapRC_of_hasSignal (show (0 : ℤ) ≤ 250 by decide) (by decide) hsignal
  have hdead : ¬ |m'| < 8 := by
    rw [abs_lt]
    omega
  rw [hmap, hmap', if_neg hdead]
  rw [abs_lt] at hdead
  split_ifs <;> omega

/-! ### The values a frame can carry -/

namespace Crsf

/-- The scaling of a field keeps the order of the codes. -/
theorem convertChannelValue_mono {c₁ c₂ : ℕ} (h : c₁ ≤ c₂) (h₂ : c₂ < 2 ^ 11) :
    (convertChannelValue c₁).toNat ≤ (convertChannelValue c₂).toNat := by
  have hc : (c₁ : ℚ) ≤ c₂ := by exact_mod_cast h
  have := truncZ_mono (show 988 + ((c₁ : ℚ) - 172) * 1024 / 1639 ≤
    988 + ((c₂ : ℚ) - 172) * 1024 / 1639 by linarith)
  rw [← convertChannelValue_toNat (h.trans_lt h₂), ← convertChannelValue_toNat h₂] at this
  exact_mod_cast this

/-- The codes whose value `mapRC` takes for a signal. -/
theorem hasSignal_convert_iff {c : ℕ} (hc : c < 2 ^ 11) :
    HasSignal (convertChannelValue c) ↔ 32 ≤ c ∧ c ≤ 1953 := by
  -- the scaling keeps order, so the codes at the two borders decide
  have h31 : (convertChannelValue 31).toNat = 899 := by decide +kernel
  have h32 : (convertChannelValue 32).toNat = 900 := by decide +kernel
  have h1953 : (convertChannelValue 1953).toNat = 2100 := by decide +kernel
  have h1954 : (convertChannelValue 1954).toNat = 2101 := by decide +kernel
  constructor
  · rintro ⟨hlo, hhi⟩
    constructor
    · by_contra hlt
      have := convertChannelValue_mono (show c ≤ 31 by omega) (by decide)
      omega
    · by_contra hlt
      have := convertChannelValue_mono (show 1954 ≤ c by omega) hc
      omega
  · rintro ⟨hlo, hhi⟩
    have := convertChannelValue_mono hlo hc
    have := convertChannelValue_mono hhi (by decide)
    exact ⟨by omega, by omega⟩

/-- Stick to command. The codes 32 to 1953 are those converted to 900..2100, and are mapped in their
order; every other code is no signal and gives 0, and no command exceeds the speed. -/
theorem mapRC_convert (speed : ℤ) (hspeed : 0 ≤ speed) (hfit : 2400 * speed < 2 ^ 31) :
    (∀ c, c < 2 ^ 11 → (HasSignal (convertChannelValue c) ↔ 32 ≤ c ∧ c ≤ 1953)) ∧
    (∀ c₁ c₂, 32 ≤ c₁ → c₁ ≤ c₂ → c₂ ≤ 1953 →
      mapRC (convertChannelValue c₁) speed ≤ mapRC (convertChannelValue c₂) speed) ∧
    (∀ c, c < 2 ^ 11 → c < 32 ∨ 1953 < c → mapRC (convertChannelValue c) speed = 0) ∧
    ∀ c, c < 2 ^ 11 → -speed ≤ mapRC (convertChannelValue c) speed ∧
      mapRC (convertChannelValue c) speed ≤ speed := by
  refine ⟨fun c hc => hasSignal_convert_iff hc, fun c₁ c₂ h₁ h h₂ => ?_, fun c hc hout => ?_,
    fun c _ => ?_⟩
  · exact mapRC_mono hspeed hfit ((hasSignal_convert_iff (by omega)).mpr ⟨h₁, by omega⟩)
      ((hasSignal_convert_iff (by omega)).mpr ⟨by omega, h₂⟩)
      (convertChannelValue_mono h (by omega))
  · refine mapRC_of_not_hasSignal (fun h => ?_) speed
    have := (hasSignal_convert_iff hc).mp h
    omega
  · exact abs_le.mp (abs_mapRC_le hspeed hfit _)

/-- The fastest speed limit of the pilots. -/
theorem mapRC_convert_boost :
    (∀ c₁ c₂, 32 ≤ c₁ → c₁ ≤ c₂ → c₂ ≤ 1953 →
      mapRC (convertChannelValue c₁) 250 ≤ mapRC (convertChannelValue c₂) 250) ∧
    (∀ c, c < 2 ^ 11 → c < 32 ∨ 1953 < c → mapRC (convertChannelValue c) 250 = 0) ∧
    ∀ c, c < 2 ^ 11 → -250 ≤ mapRC (convertChannelValue c) 250 ∧
      mapRC (convertChannelValue c) 250 ≤ 250 :=
  (mapRC_convert 250 (by decide) (by decide)).2

/-- Code 0 is no signal and gives 0; code 32, further up, is full speed backwards. -/
theorem mapRC_convert_drops :
    ¬ ∀ speed c₁ c₂, 0 ≤ speed → 2400 * speed < 2 ^ 31 → c₁ ≤ c₂ → c₂ < 2 ^ 11 →
      mapRC (convertChannelValue c₁) speed ≤ mapRC (convertChannelValue c₂) speed := by
  intro h
  have := h 250 0 32 (by decide) (by decide) (by decide) (by decide)
  revert this
  decide +kernel

end Crsf
