import UwbApps.Backhaul.Sensors
import Mathlib.Tactic.Linarith

/-!
# What the package has room for

The callbacks store a reading as a whole number of the unit the package has for it: mm/s², 0.1
degrees a second, µT, Pa from 101300 and 5/128 V.  None of them looks whether the number fits.

`placed` says which component of a reading goes where, `fits_iff` for the sensor manager's
readings, and `battery_fits_iff` for a voltage, when what is stored is within a unit of the
reading.  A reading that does not fit is converted to whatever the platform makes of it, so the
condition is that the stored number is right on every platform.
-/

set_option autoImplicit false

open CFloat

namespace UwbApps.Backhaul

/-- The number `n` is within one of the value `x`. -/
def Near (n : ℤ) (x : CFloat) : Prop := ∃ q, x = .val q ∧ |(n : ℚ) - q| ≤ 1

/-- Where a valid reading is found in the sensor data: the numbers stored, each with the reading
in its unit. -/
def placed (d : RtdoabhSensorData) : SensorType → SensorData → List (ℤ × CFloat)
  | .accelerometer, .vec (some x) (some y) (some z)
  | .linearAccel, .vec (some x) (some y) (some z)
  | .gravity, .vec (some x) (some y) (some z) =>
    [(d.acceleration[2]!.toInt, x.scale 1000), (d.acceleration[0]!.toInt, y.scale 1000),
      (d.acceleration[1]!.toInt, z.scale 1000)]
  | .magneticField, .vec (some x) (some y) (some z) =>
    [(d.compass[2]!.toInt, x), (d.compass[1]!.toInt, y), (d.compass[0]!.toInt, z)]
  | .gyroscope, .vec (some x) (some y) (some z) =>
    [(d.gyro[2]!.toInt, x.scale 10), (d.gyro[0]!.toInt, y.scale 10), (d.gyro[1]!.toInt, z.scale 10)]
  | .pressure, .press (some p) => [(d.pressure.toInt, p.plus (-101300))]
  | _, _ => []

/-- The valid readings there is room for: below 32.8 m/s², 3276.8 degrees a second, 32.8 mT and
32.8 kPa from 1013 hPa, in round numbers. -/
def ReadingFits : SensorType → SensorData → Prop
  | .accelerometer, .vec (some x) (some y) (some z)
  | .linearAccel, .vec (some x) (some y) (some z)
  | .gravity, .vec (some x) (some y) (some z) => ∀ c ∈ [x, y, z], Between (-32.7685) 32.7675 c
  | .magneticField, .vec (some x) (some y) (some z) => ∀ c ∈ [x, y, z], Between (-32769) 32768 c
  | .gyroscope, .vec (some x) (some y) (some z) => ∀ c ∈ [x, y, z], Between (-3276.85) 3276.75 c
  | .pressure, .press (some p) => Between 68531 134068 p
  | _, _ => True

/-! ## One conversion -/

theorem not_near_nan (n : ℤ) : ¬Near n .nan := fun ⟨_, heq, _⟩ ↦ nomatch heq

theorem not_near_inf (n : ℤ) (s : Bool) : ¬Near n (.inf s) := fun ⟨_, heq, _⟩ ↦ nomatch heq

theorem near_val_iff {n : ℤ} {q : ℚ} : Near n (.val q) ↔ |(n : ℚ) - q| ≤ 1 :=
  ⟨fun ⟨_, heq, h⟩ ↦ by cases heq; exact h, fun h ↦ ⟨q, rfl, h⟩⟩

/-- A number in the range of a type survives the conversion to it. -/
theorem toInt_ofInt_convert {w : ℕ} (undef : CFloat → ℤ) {f : ℚ} (hlo : -2 ^ w ≤ trunc f)
    (hhi : trunc f ≤ 2 ^ w - 1) :
    (BitVec.ofInt (w + 1) ((val f).convert undef (-2 ^ w) (2 ^ w - 1))).toInt = trunc f := by
  have hpow : (2 : ℤ) ^ (w + 1) = 2 * 2 ^ w := pow_succ' 2 w
  rw [convert, if_pos ⟨hlo, hhi⟩, BitVec.toInt_ofInt]
  refine Int.bmod_eq_of_le ?_ ?_
  · push_cast
    omega
  · push_cast
    omega

/-- **A conversion is right on every platform exactly when it stays in range.**  `f` is what is
converted and `q` what it stands for; the type has to hold more than the numbers up to one. -/
theorem near_converted_iff {w : ℕ} (hw : 2 ≤ w) {f q : ℚ} (hf : |(trunc f : ℚ) - q| ≤ 1) :
    (∀ undef, Near (BitVec.ofInt (w + 1)
        ((val f).convert undef (-2 ^ w) (2 ^ w - 1))).toInt (.val q)) ↔
      -2 ^ w ≤ trunc f ∧ trunc f ≤ 2 ^ w - 1 := by
  constructor
  · intro hall
    by_contra hout
    -- a platform that gives zero is then too far away
    have hzero := near_val_iff.mp (hall fun _ ↦ 0)
    rw [convert, if_neg hout, BitVec.toInt_ofInt, Int.zero_bmod] at hzero
    have hbig : (4 : ℤ) ≤ 2 ^ w := by
      calc (4 : ℤ) = 2 ^ 2 := by norm_num
        _ ≤ 2 ^ w := pow_le_pow_right₀ (by norm_num) hw
    have hfar : trunc f ≤ -3 ∨ 3 ≤ trunc f := by omega
    rw [Int.cast_zero, zero_sub, abs_neg, abs_le] at hzero
    rw [abs_le] at hf
    rcases hfar with hfar | hfar
    · have hfar : (trunc f : ℚ) ≤ -3 := by exact_mod_cast hfar
      linarith [hf.1, hzero.1]
    · have hfar : (3 : ℚ) ≤ trunc f := by exact_mod_cast hfar
      linarith [hf.2, hzero.2]
  · rintro ⟨hlo, hhi⟩ undef
    rw [toInt_ofInt_convert undef hlo hhi]
    exact near_val_iff.mpr hf

/-- What `near_converted_iff` says of a value that is `f` of its number when it is converted. -/
theorem near_between_iff {w : ℕ} (hw : 2 ≤ w) (conv : CFloat → CFloat) (f : ℚ → ℚ) {lo hi : ℚ}
    (hconv : ∀ q, conv (.val q) = .val (f q)) (hf : ∀ q, |(trunc (f q) : ℚ) - q| ≤ 1)
    (hfits : ∀ q, -2 ^ w ≤ trunc (f q) ∧ trunc (f q) ≤ 2 ^ w - 1 ↔ lo < q ∧ q < hi) (x : CFloat) :
    (∀ undef, Near (BitVec.ofInt (w + 1)
        ((conv x).convert undef (-2 ^ w) (2 ^ w - 1))).toInt x) ↔ Between lo hi x := by
  rcases x with _ | s | q
  · exact iff_of_false (fun h ↦ not_near_nan _ (h fun _ ↦ 0)) not_between_nan
  · exact iff_of_false (fun h ↦ not_near_inf _ _ (h fun _ ↦ 0)) not_between_inf
  · rw [hconv, near_converted_iff hw (hf q), hfits, between_val_iff]

/-- A value that is truncated to `int16_t`. -/
theorem near_truncated_iff (x : CFloat) :
    (∀ undef, Near (toInt16 undef x).toInt x) ↔ Between (-32769) 32768 x := by
  refine near_between_iff (w := 15) (by norm_num) id id (fun _ ↦ rfl) abs_trunc_sub_le
    (fun q ↦ ?_) x
  rw [le_trunc_iff (by norm_num), trunc_le_iff (by norm_num)]
  norm_num

/-- A value that is rounded to `int16_t`. -/
theorem near_rounded_iff (x : CFloat) :
    (∀ undef, Near (toInt16 undef x.round).toInt x) ↔ Between (-32768.5) 32767.5 x := by
  refine near_between_iff (w := 15) (by norm_num) round (fun q ↦ nearest q) round_val (fun q ↦ ?_)
    (fun q ↦ ?_) x
  · rw [trunc_intCast]
    exact (abs_nearest_sub_le q).trans (by norm_num)
  · rw [trunc_intCast, le_nearest_iff (by norm_num), nearest_le_iff (by norm_num)]
    norm_num

/-! ## A reading -/

/-- A value that is scaled and rounded. -/
theorem near_scaled_iff {c lo hi : ℚ} (hc : 0 < c) (hlo : c * lo = -32768.5)
    (hhi : c * hi = 32767.5) (x : CFloat) :
    (∀ undef, Near (toInt16 undef (x.scale c).round).toInt (x.scale c)) ↔ Between lo hi x := by
  rw [near_rounded_iff, ← hlo, ← hhi, between_scale_iff hc]

/-- Three components that are stored alike. -/
theorem near_vec_iff {stored : (CFloat → ℤ) → CFloat → ℤ} {unit : CFloat → CFloat} {lo hi : ℚ}
    (hone : ∀ x, (∀ undef, Near (stored undef x) (unit x)) ↔ Between lo hi x) (x y z : CFloat) :
    (∀ undef, ∀ p ∈ [(stored undef x, unit x), (stored undef y, unit y), (stored undef z, unit z)],
        Near p.1 p.2) ↔ ∀ c ∈ [x, y, z], Between lo hi c := by
  simp [forall_and, hone]

/-- **When a reading is kept**: what the callback stores is within one unit of it, whatever the
platform makes of a conversion that does not fit, exactly when it has room for each component. -/
theorem fits_iff (d : RtdoabhSensorData) (type : SensorType) (data : SensorData) :
    (∀ undef, ∀ p ∈ placed (rtdoaBackhaulSensorDataCb undef d data type) type data,
        Near p.1 p.2) ↔ ReadingFits type data := by
  fun_cases ReadingFits type data with
  | case1 x y z | case2 x y z | case3 x y z =>
    exact near_vec_iff (near_scaled_iff (by norm_num) (by norm_num) (by norm_num)) x y z
  | case4 x y z => exact near_vec_iff near_truncated_iff x y z
  | case5 x y z =>
    exact near_vec_iff (near_scaled_iff (by norm_num) (by norm_num) (by norm_num)) x y z
  | case6 p =>
    have hone := near_truncated_iff (p.plus (-101300))
    rw [show (-32769 : ℚ) = 68531 + -101300 by norm_num,
      show (32768 : ℚ) = 134068 + -101300 by norm_num, between_plus_iff] at hone
    rw [← hone]
    exact forall_congr' fun undef ↦ List.forall_mem_singleton
  | case7 => simp [placed, *]

/-- **When a voltage is kept**: `int8_t` holds the steps of 5/128 V below 5 V. -/
theorem battery_fits_iff (d : RtdoabhSensorData) (batteryVolt : CFloat) :
    (∀ undef, Near (rtdoaBackhaulBatteryCb undef d batteryVolt).batteryVoltage.toInt
        (batteryVolt.scale (128 / 5))) ↔ Between (-645 / 128) 5 batteryVolt := by
  rw [← between_scale_iff (show (0 : ℚ) < 128 / 5 by norm_num)]
  refine near_between_iff (w := 7) (by norm_num) id id (fun _ ↦ rfl) abs_trunc_sub_le (fun q ↦ ?_) _
  rw [le_trunc_iff (by norm_num), trunc_le_iff (by norm_num)]
  norm_num

end UwbApps.Backhaul
