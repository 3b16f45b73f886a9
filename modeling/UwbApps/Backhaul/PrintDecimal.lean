import Mathlib.Algebra.Order.Floor.Semifield
import UwbApps.Backhaul.Print

/-!
# The decimal fractions of the line

`rtdoa_backhaul_print` has no `%f`: it prints the integer part and the fraction of a number as two
numbers.  Here the platform computes exactly (`exactPlatform`), so that what is left of a value is
what the format strings leave of it.

`fixedField_faithful_iff` says which values can be read back from the line.  Only the voltage pads
its fraction with zeros, and no field prints the sign of a value above minus one, so an
acceleration of `0.005` is shown as `0.5` and one of `-0.5` as `0.500`.
-/

set_option autoImplicit false

open Octets Reads Printf
open Packed hiding dec

namespace UwbApps.Backhaul

open Os RtdoabhSensorData Decimal

/-! ## Exact arithmetic -/

/-- A platform whose `float` and `double` are exact. -/
def exactPlatform (undef : CFloat → ℤ) (usecs : BitVec 64 → CFloat) : Platform where
  float := exactArith undef
  double := exactArith undef
  ofBits := .ofBits
  toUInt64 x := BitVec.ofInt 64 (CFloat.convert undef 0 18446744073709551615 x)
  toUInt32 x := BitVec.ofInt 32 (CFloat.convert undef 0 4294967295 x)
  uwbDwtUsecsToUsecs := usecs

/-! ## The fields -/

/-- What the line shows as a decimal fraction. -/
inductive FixedField
  | gpsLat
  | gpsLong
  | vbat
  | acceleration (i : Fin 3)
  | gyro (i : Fin 3)
  | rssi (i : ℕ)

/-- A coordinate, without the quotes around it. -/
def degreeDigits (plat : Platform) (bits : BitVec 32) : String :=
  let x := plat.ofBits bits
  let frac := plat.float.toInt (plat.float.mul (plat.float.frac x) (plat.float.ofInt 1000000))
  dec (plat.float.toInt x).toInt ++ "." ++ dec (absInt frac)

theorem degreeText_eq (plat : Platform) (bits : BitVec 32) :
    degreeText plat bits = "\"" ++ degreeDigits plat bits ++ "\"" := by
  simp [degreeText, degreeDigits, String.append_assoc]

namespace FixedField

variable (plat : Platform) (N : ℕ) (m : Mem)

/-- The line shows the field. -/
def Shown : FixedField → Prop
  | gpsLat | gpsLong => Enabled N m GPS_LAT_LONG_ENABLED
  | vbat => Enabled N m BATTERY_LEVELS_ENABLED
  | acceleration _ => Enabled N m ACCELEROMETER_ENABLED
  | gyro _ => Enabled N m GYRO_ENABLED
  | rssi i => i < rangeCount N m

/-- A member of the sensor data of the package in `m`. -/
def sensor {γ : Type} (name : PkgField) (f : Field sensorLayout γ) : γ :=
  (member name (sensorField N f) : Reads PkgField γ).value m

/-- What the line shows of the field. -/
def text : FixedField → String
  | gpsLat => degreeDigits plat (sensor N m .gpsLat gpsLatField)
  | gpsLong => degreeDigits plat (sensor N m .gpsLong gpsLongField)
  | vbat => voltText plat (sensor N m .batteryVoltage batteryVoltageField)
  | acceleration i => componentText plat 1000 (sensor N m (.acceleration i) (accelerationField i))
  | gyro i => componentText plat 10 (sensor N m (.gyro i) (gyroField i))
  | rssi i => rssiText plat ((readRange i).value m).rssi

/-- The value the package has for it, in degrees, volts, m/s², degrees per second or dBm. -/
def value : FixedField → CFloat
  | gpsLat => .ofBits (sensor N m .gpsLat gpsLatField)
  | gpsLong => .ofBits (sensor N m .gpsLong gpsLongField)
  | vbat => .val ((sensor N m .batteryVoltage batteryVoltageField).toInt * 5 / 128)
  | acceleration i => .val ((sensor N m (.acceleration i) (accelerationField i)).toInt / 1000)
  | gyro i => .val ((sensor N m (.gyro i) (gyroField i)).toInt / 10)
  | rssi i => .val (((readRange i).value m).rssi.toInt / 10)

/-- The digits behind the dot that the line has for the field. -/
def digits : FixedField → ℕ
  | gpsLat | gpsLong => 6
  | vbat => 2
  | acceleration _ => 3
  | gyro _ | rssi _ => 1

/-- The width its fraction is padded to. -/
def width : FixedField → ℕ
  | vbat => 2
  | _ => 0

/-- Wherever the field is shown, it is read back with its sign and to within a unit of its last
digit. -/
def ReadsBack (usecs : BitVec 64 → CFloat) (f : FixedField) : Prop :=
  ∃ v, f.value N m = .val v ∧ ∀ undef,
    Faithful (f.text (exactPlatform undef usecs) N m).toList v (1 / 10 ^ f.digits)

/-! ### Where the field is shown -/

section Infix

variable {N m} {f : FixedField}

theorem infix_append_left {s a : String} (b : String) (h : s.toList <:+: a.toList) :
    s.toList <:+: (a ++ b).toList := by
  rw [String.toList_append]
  exact h.trans (List.prefix_append _ _).isInfix

theorem infix_append_right (s a : String) : s.toList <:+: (a ++ s).toList := by
  rw [String.toList_append]
  exact (List.suffix_append _ _).isInfix

theorem infix_vec3 (before after : String) (text : Fin 3 → String) (i : Fin 3) :
    (text i).toList <:+:
      (before ++ text 0 ++ "," ++ text 1 ++ "," ++ text 2 ++ after).toList := by
  obtain rfl | rfl | rfl : i = 0 ∨ i = 1 ∨ i = 2 := by omega
  · exact infix_append_left _ <| infix_append_left _ <| infix_append_left _ <|
      infix_append_left _ <| infix_append_left _ <| infix_append_right _ _
  · exact infix_append_left _ <| infix_append_left _ <| infix_append_left _ <|
      infix_append_right _ _
  · exact infix_append_left _ <| infix_append_right _ _

theorem value_whenEnabled {bit : BitVec 14} (h : Enabled N m bit) (text : Reads PkgField String) :
    (whenEnabled N bit text).value m = text.value m := by
  have hbind : (whenEnabled N bit text).value m =
      (if ((readValid N).value m).1 &&& bit ≠ 0 then text else pure "").value m := rfl
  rw [hbind, if_pos (show ((readValid N).value m).1 &&& bit ≠ 0 from h)]

/-- One column of the compact form shows every range. -/
theorem infix_printColumn {n i : ℕ} (hi : i < n) (key : String) (show' : RtdoabhRangeData → String)
    (last : Bool) : (show' ((readRange i).value m)).toList <:+:
      ((printColumn n key show' last).value m).toList := by
  have hcell : (show' ((readRange i).value m)).toList <:+:
      ((printCell show' n i).value m).toList :=
    infix_append_left _ (List.infix_refl _)
  have hcells := infix_value_concat (List.mem_map_of_mem (f := printCell show' n)
    (List.mem_range.mpr hi)) m
  have hbind : (printColumn n key show' last).value m = "\"" ++ key ++ "\":[" ++
      (concat ((List.range n).map (printCell show' n))).value m ++ "]" ++
        if last then "\x7d" else "," := rfl
  rw [hbind]
  exact infix_append_left _ <| infix_append_left _ <|
    (hcell.trans hcells).trans (infix_append_right _ _)

theorem infix_printCompact {i : ℕ} (hi : i < rangeCount N m) :
    (rssiText plat ((readRange i).value m).rssi).toList <:+:
      ((printCompact plat N).value m).toList := by
  have hne : ¬ (member .numRanges (numRangesField N) : Reads PkgField _).value m = 0 := by
    intro h
    rw [rangeCount, h] at hi
    exact absurd hi (Nat.not_lt_zero i)
  have hcols : (rssiText plat ((readRange i).value m).rssi).toList <:+: ((concat
      ((columns plat).zipIdx.map fun col ↦
        printColumn (rangeCount N m) col.1.1 col.1.2 (col.2 == 3))).value m).toList :=
    (infix_printColumn hi "rs" (fun r ↦ rssiText plat r.rssi) false).trans
      (infix_value_concat (by simp [columns]) m)
  rw [printCompact, value_bind, if_neg hne]
  exact infix_append_left _ (hcols.trans (infix_append_right _ _))

theorem infix_printLong {tight : Bool} {i : ℕ} (hi : i < rangeCount N m) :
    (rssiText plat ((readRange i).value m).rssi).toList <:+:
      ((printLong plat N tight).value m).toList := by
  have hentry : (rssiText plat ((readRange i).value m).rssi).toList <:+:
      ((printEntry plat (rangeCount N m) tight i).value m).toList :=
    infix_append_left _ <| infix_append_left _ <| infix_append_left _ <| infix_append_right _ _
  have hentries := infix_value_concat (List.mem_map_of_mem
    (f := printEntry plat (rangeCount N m) tight) (List.mem_range.mpr hi)) m
  exact infix_append_left _ ((hentry.trans hentries).trans (infix_append_right _ _))

/-- The text of a field that is shown is part of the line. -/
theorem text_infix {compact tight : Bool} {gMsgId : BitVec 32} (h : f.Shown N m) :
    (f.text plat N m).toList <:+:
      ((rtdoaBackhaulPrint plat N compact gMsgId tight).value m).toList := by
  have hpiece : ∀ {text : List Char} {x : Reads PkgField String}, text <:+: (x.value m).toList →
      x ∈ [printId N, printMode N, printTs plat N, printMid gMsgId, printGps plat N,
        printBattery plat N, printAcceleration plat N, printGyro plat N, printCompass N,
        printPressure N, if compact then printCompact plat N else printLong plat N tight] →
      text <:+: ((rtdoaBackhaulPrint plat N compact gMsgId tight).value m).toList :=
    fun htext hx ↦ htext.trans (infix_value_concat hx m)
  cases f with
  | gpsLat =>
    refine hpiece (x := printGps plat N) ?_ (by simp)
    rw [printGps, value_whenEnabled h]
    simp only [value_bind, value_pure, degreeText_eq]
    exact infix_append_left _ <| infix_append_left _ <| infix_append_left _ <|
      List.IsInfix.trans (infix_append_left _ (infix_append_right _ _)) (infix_append_right _ _)
  | gpsLong =>
    refine hpiece (x := printGps plat N) ?_ (by simp)
    rw [printGps, value_whenEnabled h]
    simp only [value_bind, value_pure, degreeText_eq]
    exact infix_append_left _ <|
      List.IsInfix.trans (infix_append_left _ (infix_append_right _ _)) (infix_append_right _ _)
  | vbat =>
    refine hpiece (x := printBattery plat N) ?_ (by simp)
    rw [printBattery, value_whenEnabled h]
    exact infix_append_left _ <| infix_append_left _ <| infix_append_left _ (infix_append_right _ _)
  | acceleration i =>
    refine hpiece (x := printAcceleration plat N) ?_ (by simp)
    rw [printAcceleration, value_whenEnabled h]
    exact infix_vec3 _ _ (fun j ↦ (acceleration j).text plat N m) i
  | gyro i =>
    refine hpiece (x := printGyro plat N) ?_ (by simp)
    rw [printGyro, value_whenEnabled h]
    exact infix_vec3 _ _ (fun j ↦ (gyro j).text plat N m) i
  | rssi i =>
    refine hpiece (x := if compact then printCompact plat N else printLong plat N tight) ?_
      (by simp)
    split
    · exact infix_printCompact plat h
    · exact infix_printLong plat h

end Infix

/-! ### What its text is -/

section Text

variable {undef : CFloat → ℤ} {usecs : BitVec 64 → CFloat}

theorem natAbs_toInt_lt {w : ℕ} (hw : w ≤ 16) (x : BitVec w) : x.toInt.natAbs < 2 ^ 16 := by
  have hpow : 2 ^ w ≤ 2 ^ 16 := Nat.pow_le_pow_right (by decide) hw
  have hlt := x.isLt
  rw [BitVec.toInt_eq_toNat_cond]
  split <;> omega

/-- The quotient of an integer by a power of ten. -/
theorem toList_decimal_div {k : ℕ} {scale : ℤ} (hk : k ≤ 6) (hscale : (scale : ℚ) = 10 ^ k)
    (hone : 1 ≤ scale) {n : ℤ} (hn : n.natAbs < 2 ^ 16) :
    ((exactArith undef).decimal scale ((exactArith undef).div ((exactArith undef).ofInt n)
      ((exactArith undef).ofInt scale))).toList = fixed k 0 (n / scale) := by
  rw [exactArith_div_ofInt n (by omega)]
  exact toList_decimal hk hscale (fitsInt_div (lt_trans hn (by decide)) hone)

theorem toList_componentText_thousandth (x : BitVec 16) :
    (componentText (exactPlatform undef usecs) 1000 x).toList = fixed 3 0 (x.toInt / 1000) := by
  have h := @toList_decimal_div undef 3 1000 (by decide) (by norm_num) (by decide) _
    (natAbs_toInt_lt le_rfl x)
  exact_mod_cast h

theorem toList_degreeDigits {bits : BitVec 32} {v : ℚ} (h : CFloat.ofBits bits = .val v)
    (hfits : FitsInt v) :
    (degreeDigits (exactPlatform undef usecs) bits).toList = fixed 6 0 v := by
  have hmul : (exactArith undef).mul ((exactArith undef).frac (.val v))
      ((exactArith undef).ofInt 1000000) = .val (10 ^ 6 * (v - CFloat.trunc v)) := by
    rw [frac_val hfits, mul_comm]
    show CFloat.val ((v - CFloat.trunc v) * ((1000000 : ℤ) : ℚ)) = _
    norm_num
  have hdigits : degreeDigits (exactPlatform undef usecs) bits =
      dec ((exactArith undef).toInt (.val v)).toInt ++ "." ++
        dec (absInt ((exactArith undef).toInt (.val (10 ^ 6 * (v - CFloat.trunc v))))) := by
    rw [← hmul, ← h]
    rfl
  rw [hdigits, absInt_frac (by decide)]
  simp only [String.toList_append, toList_dec_toInt hfits, toList_dec_nat, fixed, pad,
    List.append_assoc, Nat.zero_sub, List.replicate_zero, List.nil_append]
  rfl

theorem toList_voltText (b : BitVec 8) :
    (voltText (exactPlatform undef usecs) b).toList = fixed 2 2 (b.toInt * 5 / 128) := by
  have hfits : FitsInt (b.toInt * 5 / 128) := by
    have hlt := natAbs_toInt_lt (by decide) b
    exact_mod_cast fitsInt_div (n := b.toInt * 5) (c := 128) (by omega) (by decide)
  have hquot : (exactArith undef).div ((exactArith undef).mul ((exactArith undef).ofInt b.toInt)
      ((exactArith undef).ofInt 5)) ((exactArith undef).ofInt 128) =
        .val (b.toInt * 5 / 128) := by
    show CFloat.div (.val (b.toInt * ((5 : ℤ) : ℚ))) (.val ((128 : ℤ) : ℚ)) = _
    norm_num [CFloat.div]
  have hmul : (exactArith undef).mul ((exactArith undef).ofInt 100)
      ((exactArith undef).frac (.val (b.toInt * 5 / 128))) =
        .val (10 ^ 2 * (b.toInt * 5 / 128 - CFloat.trunc (b.toInt * 5 / 128))) := by
    rw [frac_val hfits]
    show CFloat.val (((100 : ℤ) : ℚ) * _) = _
    norm_num
  have hvolt : voltText (exactPlatform undef usecs) b =
      dec ((exactArith undef).toInt (.val (b.toInt * 5 / 128))).toInt ++ "." ++
        padZero 2 (dec (absInt ((exactArith undef).toInt
          (.val (10 ^ 2 * (b.toInt * 5 / 128 - CFloat.trunc (b.toInt * 5 / 128))))))) := by
    rw [← hmul, ← hquot]
    rfl
  rw [hvolt, absInt_frac (by decide)]
  simp only [String.toList_append, toList_dec_toInt hfits, toList_padZero, toList_dec_nat, fixed,
    List.append_assoc]
  rfl

/-- **What is printed for a field** whose value fits an `int`. -/
theorem toList_text {N : ℕ} {m : Mem} {f : FixedField} {v : ℚ} (h : f.value N m = .val v)
    (hfits : FitsInt v) :
    (f.text (exactPlatform undef usecs) N m).toList = fixed f.digits f.width v := by
  cases f with
  | gpsLat => exact toList_degreeDigits h hfits
  | gpsLong => exact toList_degreeDigits h hfits
  | vbat =>
    cases h
    exact toList_voltText _
  | acceleration i =>
    cases h
    exact toList_componentText_thousandth _
  | gyro i =>
    cases h
    exact_mod_cast @toList_decimal_div undef 1 10 (by decide) (by norm_num) (by decide) _
      (natAbs_toInt_lt le_rfl _)
  | rssi i =>
    cases h
    exact_mod_cast @toList_decimal_div undef 1 10 (by decide) (by norm_num) (by decide) _
      (natAbs_toInt_lt (by decide) _)

end Text

/-! ### What is read back -/

section ReadBack

variable {N : ℕ} {m : Mem} {usecs : BitVec 64 → CFloat}

/-- A coordinate that does not fit an `int` may be shown as anything. -/
theorem not_faithful_degreeDigits {bits : BitVec 32} {v : ℚ} (h : CFloat.ofBits bits = .val v)
    (hfits : ¬ FitsInt v) :
    ¬ Faithful (degreeDigits (exactPlatform (fun _ ↦ -1) usecs) bits).toList v (1 / 10 ^ 6) := by
  have hbig : 2147483648 ≤ |v| := not_lt.mp fun hlt ↦ hfits (fitsInt_of_abs_lt hlt)
  have hfrac : (exactArith fun _ ↦ -1).mul ((exactArith fun _ ↦ -1).frac (.val v))
      ((exactArith fun _ ↦ -1).ofInt 1000000) = .val ((v + 1) * 1000000) := by
    have hsub : (exactArith fun _ ↦ -1).frac (.val v) =
        .val (v - (((exactArith fun _ ↦ -1).toInt (.val v)).toInt : ℤ)) := rfl
    rw [hsub, toInt_val_of_not_fitsInt hfits]
    show CFloat.val ((v - ((-1 : ℤ) : ℚ)) * ((1000000 : ℤ) : ℚ)) = _
    norm_num
  have hfits' : ¬ FitsInt ((v + 1) * 1000000) := by
    intro hfit
    have hlt := abs_lt_of_fitsInt hfit
    rw [abs_mul, abs_of_pos (by norm_num : (0 : ℚ) < 1000000)] at hlt
    have := abs_sub_abs_le_abs_sub v (-1)
    rw [abs_neg, abs_one, sub_neg_eq_add] at this
    linarith
  have htext : degreeDigits (exactPlatform (fun _ ↦ -1) usecs) bits =
      dec ((exactArith fun _ ↦ -1).toInt (.val v)).toInt ++ "." ++
        dec (absInt ((exactArith fun _ ↦ -1).toInt (.val ((v + 1) * 1000000)))) := by
    rw [← hfrac, ← h]
    rfl
  rw [htext, toInt_val_of_not_fitsInt hfits, toInt_val_of_not_fitsInt hfits']
  rintro ⟨q, hread, -, hclose⟩
  have hshown : Decimal.read (dec (-1 : BitVec 32).toInt ++ "." ++ dec (absInt (-1))).toList =
      some (-(1 + 1 / 10)) := by
    decide +kernel
  rw [hshown, Option.some.injEq] at hread
  have := abs_sub_abs_le_abs_sub v q
  rw [abs_sub_comm q v] at hclose
  rw [← hread] at this hclose
  norm_num at this hclose
  linarith

theorem fitsInt_of_value {f : FixedField} {v : ℚ} (h : f.value N m = .val v)
    (hlat : f ≠ .gpsLat) (hlong : f ≠ .gpsLong) : FitsInt v := by
  have hdiv : ∀ {w : ℕ} (x : BitVec w) {c : ℤ}, w ≤ 16 → 1 ≤ c → FitsInt (x.toInt / c) :=
    fun x _ hw hc ↦ fitsInt_div (lt_trans (natAbs_toInt_lt hw x) (by decide)) hc
  cases f with
  | gpsLat => exact absurd rfl hlat
  | gpsLong => exact absurd rfl hlong
  | vbat =>
    cases h
    have hlt := natAbs_toInt_lt (by decide) (sensor N m .batteryVoltage batteryVoltageField)
    exact_mod_cast fitsInt_div (c := 128) (by omega) (by decide)
  | acceleration i =>
    cases h
    exact_mod_cast hdiv _ le_rfl (by decide : (1 : ℤ) ≤ 1000)
  | gyro i =>
    cases h
    exact_mod_cast hdiv _ le_rfl (by decide : (1 : ℤ) ≤ 10)
  | rssi i =>
    cases h
    exact_mod_cast hdiv _ (by decide : 14 ≤ 16) (by decide : (1 : ℤ) ≤ 10)

theorem digits_pos (f : FixedField) : 0 < f.digits ∧ f.width ≤ f.digits := by
  cases f <;> simp [digits, width]

/-- A field is read back exactly if its value can be printed, and read. -/
theorem readsBack_iff (f : FixedField) :
    f.ReadsBack N m usecs ↔
      ∃ v, f.value N m = .val v ∧ FitsInt v ∧ Legible f.digits f.width v := by
  obtain ⟨hpos, hwidth⟩ := digits_pos f
  constructor
  · rintro ⟨v, hv, hfaithful⟩
    have hfits : FitsInt v := by
      by_contra hfits
      by_cases hlat : f = .gpsLat
      · subst hlat
        exact not_faithful_degreeDigits hv hfits (hfaithful fun _ ↦ -1)
      · by_cases hlong : f = .gpsLong
        · subst hlong
          exact not_faithful_degreeDigits hv hfits (hfaithful fun _ ↦ -1)
        · exact hfits (fitsInt_of_value hv hlat hlong)
    refine ⟨v, hv, hfits, (faithful_fixed_iff hpos hwidth v).mp ?_⟩
    rw [← toList_text hv hfits]
    exact hfaithful fun _ ↦ 0
  · rintro ⟨v, hv, hfits, hlegible⟩
    refine ⟨v, hv, fun undef ↦ ?_⟩
    rw [toList_text hv hfits]
    exact (faithful_fixed_iff hpos hwidth v).mpr hlegible

end ReadBack

end FixedField

/-! ## Accelerations that look alike -/

section Alike

variable {undef : CFloat → ℤ} {usecs : BitVec 64 → CFloat}

/-- Thousandths as they read behind the dot. -/
def spread (n : ℕ) : ℕ := if n < 10 then n * 100 else if n < 100 then n * 10 else n

/-- The two are shown with the same digits and, where there are whole units, the same sign. -/
def LookAlike (a b : BitVec 16) : Prop :=
  a.toInt.natAbs / 1000 = b.toInt.natAbs / 1000 ∧
    spread (a.toInt.natAbs % 1000) = spread (b.toInt.natAbs % 1000) ∧
      (a.toInt.natAbs / 1000 = 0 ∨ (a.toInt < 0 ↔ b.toInt < 0))

instance (a b : BitVec 16) : Decidable (LookAlike a b) :=
  inferInstanceAs (Decidable (_ ∧ _ ∧ (_ ∨ _)))

theorem floor_abs_div (n : ℤ) : ⌊|(n / 1000 : ℚ)|⌋₊ = n.natAbs / 1000 := by
  rw [abs_div, ← Int.cast_abs, Int.abs_eq_natAbs, Int.cast_natCast]
  exact_mod_cast Nat.floor_div_eq_div (K := ℚ) n.natAbs 1000

theorem fracOf_div (n : ℤ) : fracOf 3 (n / 1000) = n.natAbs % 1000 := by
  have hsum : (1000 * (n.natAbs / 1000 : ℕ) + (n.natAbs % 1000 : ℕ) : ℚ) = n.natAbs := by
    exact_mod_cast Nat.div_add_mod n.natAbs 1000
  have habs : |(n / 1000 : ℚ)| = (n.natAbs : ℚ) / 1000 := by
    rw [abs_div, ← Int.cast_abs, Int.abs_eq_natAbs]
    norm_num
  have hfrac : 10 ^ 3 * (|(n / 1000 : ℚ)| - ⌊|(n / 1000 : ℚ)|⌋₊) = (n.natAbs % 1000 : ℕ) := by
    rw [floor_abs_div, habs, ← hsum]
    ring
  rw [fracOf, hfrac, Nat.floor_natCast]

theorem shownFrac_div (n : ℤ) : shownFrac 3 0 (n / 1000) = spread (n.natAbs % 1000) := by
  have hlen : ∀ f < 1000, f * 10 ^ (3 - (Nat.toDigits 10 f).length) = spread f := by
    intro f hf
    have hlt : ∀ j, 0 < j → ((Nat.toDigits 10 f).length ≤ j ↔ f < 10 ^ j) := fun j hj ↦
      Nat.length_toDigits_le_iff (by decide) hj
    have hpos : 0 < (Nat.toDigits 10 f).length := List.length_pos_of_ne_nil Nat.toDigits_ne_nil
    have h1 := hlt 1 (by decide)
    have h2 := hlt 2 (by decide)
    have h3 := hlt 3 (by decide)
    rw [spread]
    split
    · rw [show (Nat.toDigits 10 f).length = 1 by omega]
      rfl
    · split
      · rw [show (Nat.toDigits 10 f).length = 2 by omega]
        rfl
      · rw [show (Nat.toDigits 10 f).length = 3 by omega, Nat.sub_self, pow_zero, Nat.mul_one]
  rw [shownFrac, fracLength, fracOf_div, pad, Nat.zero_sub, List.replicate_zero, List.nil_append]
  exact hlen _ (Nat.mod_lt _ (by decide))

/-- Two accelerations are read as the same number exactly if they look alike. -/
theorem read_acceleration_eq_iff (a b : BitVec 16) :
    Decimal.read (componentText (exactPlatform undef usecs) 1000 a).toList =
        Decimal.read (componentText (exactPlatform undef usecs) 1000 b).toList ↔ LookAlike a b := by
  have hneg : ∀ n : ℤ, (n / 1000 : ℚ) < 0 ↔ n < 0 := by
    intro n
    rw [div_lt_iff₀ (by norm_num), zero_mul]
    exact Int.cast_lt_zero
  rw [FixedField.toList_componentText_thousandth, FixedField.toList_componentText_thousandth,
    read_fixed_eq_iff (by decide) (by decide), floor_abs_div, floor_abs_div, shownFrac_div,
    shownFrac_div, hneg, hneg]
  rfl

end Alike

/-- **Which values can be read back from the line.**  A field that is shown is read back, with its
sign and to within a unit of its last digit, exactly if its value fits an `int` and is either whole
in that unit, or has a first digit behind the dot (or, for the voltage, is padded) and, when it is
negative, a whole part.  Two accelerations are told apart unless they look alike. -/
theorem fixedField_readsBack_iff (usecs : BitVec 64 → CFloat) :
    (∀ (N : ℕ) (m : Mem) (compact tight : Bool) (gMsgId : BitVec 32) (f : FixedField),
      f.Shown N m →
        (∀ undef, (f.text (exactPlatform undef usecs) N m).toList <:+:
          ((rtdoaBackhaulPrint (exactPlatform undef usecs) N compact gMsgId tight).value
            m).toList) ∧
        (f.ReadsBack N m usecs ↔
          ∃ v, f.value N m = .val v ∧ FitsInt v ∧ Legible f.digits f.width v)) ∧
      ∀ (undef : CFloat → ℤ) (a b : BitVec 16), a ≠ b →
        (Decimal.read (componentText (exactPlatform undef usecs) 1000 a).toList ≠
            Decimal.read (componentText (exactPlatform undef usecs) 1000 b).toList ↔
          ¬ LookAlike a b) :=
  ⟨fun _ _ _ _ _ f hshown ↦
      ⟨fun undef ↦ FixedField.text_infix (exactPlatform undef usecs) hshown,
        FixedField.readsBack_iff f⟩,
    fun _ a b _ ↦ not_congr (read_acceleration_eq_iff a b)⟩

/-- A package with an acceleration of `x` thousandths in the first component, and nothing else. -/
def accelerationMem (lo hi : UInt8) : Mem := store (store (fun _ ↦ 0) 19 [0x10]) 38 [lo, hi]

/-- An acceleration of `1.5` is read back, and is not taken for one of `1.15`. -/
theorem fixedField_readsBack_sample :
    FixedField.ReadsBack 16 (accelerationMem 220 5) (fun _ ↦ .nan) (.acceleration 0) ∧
      Decimal.read (componentText (exactPlatform (fun _ ↦ 0) fun _ ↦ .nan) 1000 1500).toList ≠
        Decimal.read (componentText (exactPlatform (fun _ ↦ 0) fun _ ↦ .nan) 1000 1150).toList := by
  obtain ⟨hback, halike⟩ := fixedField_readsBack_iff fun _ ↦ .nan
  constructor
  · refine (hback 16 (accelerationMem 220 5) true true 0 (.acceleration 0)
      (show Enabled _ _ _ by decide)).2.mpr
      ⟨1500 / 1000, ?_, ?_, ?_⟩
    · decide +kernel
    · decide +kernel
    · refine Or.inr ⟨Or.inr ?_, Or.inl ?_⟩
      · decide +kernel
      · decide +kernel
  · refine (halike (fun _ ↦ 0) 1500 1150 (by decide)).mpr (by decide)

/-- An acceleration of `0.005` is not read back, and it is read as the same number as one of
`0.5`. -/
theorem not_fixedField_readsBack :
    FixedField.Shown 16 (accelerationMem 5 0) (.acceleration 0) ∧
      ¬ FixedField.ReadsBack 16 (accelerationMem 5 0) (fun _ ↦ .nan) (.acceleration 0) ∧
      ∀ undef usecs, Decimal.read (componentText (exactPlatform undef usecs) 1000 5).toList =
        Decimal.read (componentText (exactPlatform undef usecs) 1000 500).toList := by
  refine ⟨show Enabled _ _ _ by decide, fun h ↦ ?_, fun undef usecs ↦
    (read_acceleration_eq_iff 5 500).mpr (by decide)⟩
  obtain ⟨v, hv, -, hlegible⟩ := (FixedField.readsBack_iff _).mp h
  have hv5 : v = 5 / 1000 := by
    have hval : FixedField.value 16 (accelerationMem 5 0) (.acceleration 0) = .val (5 / 1000) := by
      decide +kernel
    rw [hval, CFloat.val.injEq] at hv
    exact hv.symm
  subst hv5
  rcases hlegible with hzero | ⟨hwidth | hfirst, -⟩
  · exact absurd hzero (by decide +kernel)
  · exact absurd hwidth (by decide)
  · exact absurd hfirst (by decide +kernel)

end UwbApps.Backhaul
