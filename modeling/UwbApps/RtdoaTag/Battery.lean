import UwbApps.Backhaul.SensorRange
import UwbApps.Lib.Run
import UwbApps.Lib.Smoothing

/-!
# The battery of a tag

Once a second `sensor_timer_ev_cb` reads the supply.  `g_battery_voltage` follows the battery: the
first reading replaces the value it starts from, which is above 5 V, and so does every reading
that comes while it is still above 5 V; below, a reading counts for a tenth.  The voltage goes to
`rtdoa_backhaul_battery_cb`, which has room for less than 5 V, and a voltage below 2.9 V without
a supply over USB ends the run in `low_battery_mode`.

The readings are smoothed, so the voltage stays between the least and the greatest of them:
`gBatteryVoltage_between` says so of every run, and that `low_battery_mode` is not entered without
a reading below 2.9 V.

`kept_within_unit_iff` puts both ends together: which readings of the sensors and of the supply a
package gives back within a unit.
-/

set_option autoImplicit false

open CFloat Run Smoothing

namespace UwbApps.RtdoaTag

open Backhaul

/-- A reading of the two voltages in mV, `-1` where the board has no pin for it. -/
structure SupplyReading where
  battMv : BitVec 16
  usbMv : BitVec 16

/-- `mv2V`. -/
def mv2V : ℚ := 1 / 1000

/-- `bvf`, the weight of a reading. -/
def bvf : ℚ := 1 / 10

/-- `g_battery_voltage` after a reading of the battery. -/
def filterVoltage (g : ℚ) (battMv : BitVec 16) : ℚ :=
  if g > 5 then battMv.toInt * mv2V else g * (1 - bvf) + bvf * battMv.toInt * mv2V

/-- What a reading of the supply does. -/
structure SupplyPass where
  gBatteryVoltage : ℚ
  /-- The argument of `rtdoa_backhaul_battery_cb`, when it is called. -/
  batteryVolt : Option ℚ
  /-- The argument of `rtdoa_backhaul_usb_cb`, when it is called. -/
  usbVolt : Option ℚ
  /-- Whether `low_battery_mode` is called. -/
  lowBattery : Bool

/-- The part of `sensor_timer_ev_cb` that runs once a second. -/
def supplyPass (g : ℚ) (r : SupplyReading) : SupplyPass :=
  let v := if r.battMv.toInt > -1 then filterVoltage g r.battMv else g
  { gBatteryVoltage := v
    batteryVolt := if r.battMv.toInt > -1 then some v else none
    usbVolt := if r.usbMv.toInt > -1 then some (r.usbMv.toInt * mv2V) else none
    lowBattery := decide (v < 29 / 10) && decide (r.usbMv.toInt < 3000) }

/-- The sensor data of the package after a reading of the supply. -/
def SupplyPass.apply (undef : CFloat → ℤ) (d : RtdoabhSensorData) (p : SupplyPass) :
    RtdoabhSensorData :=
  let d := p.batteryVolt.elim d fun v ↦ rtdoaBackhaulBatteryCb undef d (.val v)
  p.usbVolt.elim d fun v ↦ rtdoaBackhaulUsbCb d (.val v)

/-- `g_battery_voltage`, and whether `low_battery_mode` has been entered. -/
structure Supply where
  gBatteryVoltage : ℚ
  lowBattery : Bool

def Supply.init : Supply := ⟨51 / 10, false⟩

/-- The next reading of the supply.  There is none after `low_battery_mode`, which only ends in a
reset. -/
def supplyStep (s : Supply) (r : SupplyReading) : Option Supply :=
  if s.lowBattery then none
  else
    let p := supplyPass s.gBatteryVoltage r
    some ⟨p.gBatteryVoltage, p.lowBattery⟩

/-- What the readings do, one after the other. -/
def supplyPasses (s : Supply) (r : SupplyReading) : List SupplyPass :=
  if s.lowBattery then [] else [supplyPass s.gBatteryVoltage r]

/-- The readings of the battery in V, oldest first. -/
def battVolts (readings : List SupplyReading) : List ℚ :=
  readings.filterMap fun r ↦
    if r.battMv.toInt > -1 then some (r.battMv.toInt * mv2V) else none

/-- The voltage a pass hands on is found in the package within a step of 5/128 V, whatever the
platform makes of a conversion that does not fit. -/
def SupplyPass.Kept (p : SupplyPass) : Prop :=
  ∀ v, p.batteryVolt = some v → ∀ undef d,
    Near (p.apply undef d).batteryVoltage.toInt ((CFloat.val v).scale (128 / 5))

/-- The readings of the battery there is room for: one that replaces the voltage has to be below
5 V, and one that counts for a tenth below what nine times the voltage leaves of 50 V. -/
def BatteryFits (s : Supply) (r : SupplyReading) : Prop :=
  s.lowBattery = false → -1 < r.battMv.toInt →
    if 5 < s.gBatteryVoltage then r.battMv.toInt * mv2V < 5
    else r.battMv.toInt * mv2V < 50 - 9 * s.gBatteryVoltage

/-! ## The filter -/

theorem supplyStep_eq_some {s t : Supply} {r : SupplyReading} (h : supplyStep s r = some t) :
    s.lowBattery = false ∧ t.gBatteryVoltage = (supplyPass s.gBatteryVoltage r).gBatteryVoltage ∧
      t.lowBattery = (supplyPass s.gBatteryVoltage r).lowBattery := by
  rw [supplyStep] at h
  split at h
  · cases h
  · rename_i hlow
    cases h
    exact ⟨Bool.eq_false_iff.mpr hlow, rfl, rfl⟩

theorem bvf_nonneg : 0 ≤ bvf := by norm_num [bvf]

theorem bvf_le_one : bvf ≤ 1 := by norm_num [bvf]

/-- The filter smooths the voltages, and starts again from above 5 V. -/
theorem filterVoltage_eq_smooth (g : ℚ) (battMv : BitVec 16) :
    filterVoltage g battMv = smooth (5 < ·) bvf g (battMv.toInt * mv2V) := by
  rw [filterVoltage, smooth, smul_eq_mul, smul_eq_mul, mul_comm (1 - bvf), ← mul_assoc]

theorem filterVoltage_nonneg {g : ℚ} (hg : 0 ≤ g) {battMv : BitVec 16} (hmv : -1 < battMv.toInt) :
    0 ≤ filterVoltage g battMv := by
  have hmv : (0 : ℚ) ≤ battMv.toInt := by exact_mod_cast (show 0 ≤ battMv.toInt by omega)
  have hvolt : 0 ≤ battMv.toInt * mv2V := mul_nonneg hmv (by norm_num [mv2V])
  rw [filterVoltage_eq_smooth]
  exact smooth_mem (convex_Ici (0 : ℚ)) bvf_nonneg bvf_le_one hg hvolt

/-- The voltage does not become negative. -/
theorem supplyStep_nonneg (s : Supply) (r : SupplyReading) (t : Supply)
    (hs : 0 ≤ s.gBatteryVoltage) (h : supplyStep s r = some t) : 0 ≤ t.gBatteryVoltage := by
  obtain ⟨-, hg, -⟩ := supplyStep_eq_some h
  rw [hg, supplyPass]
  dsimp only
  split
  · rename_i hmv
    exact filterVoltage_nonneg hs hmv
  · exact hs

/-- When the filter stays below 5 V. -/
theorem filterVoltage_lt_iff (g : ℚ) (battMv : BitVec 16) :
    filterVoltage g battMv < 5 ↔
      if 5 < g then battMv.toInt * mv2V < 5 else battMv.toInt * mv2V < 50 - 9 * g := by
  rw [filterVoltage, bvf]
  split
  · exact Iff.rfl
  · constructor
    · intro h
      linarith
    · intro h
      linarith

/-! ## The voltage of a run -/

theorem battVolts_cons (r : SupplyReading) (readings : List SupplyReading) :
    battVolts (r :: readings) =
      if r.battMv.toInt > -1 then r.battMv.toInt * mv2V :: battVolts readings
      else battVolts readings := by
  rw [battVolts, List.filterMap_cons]
  split_ifs
  · rfl
  · rfl

/-- A run smooths what it reads of the battery. -/
theorem run_gBatteryVoltage {s t : Supply} {readings : List SupplyReading}
    (h : run supplyStep s readings = some t) :
    t.gBatteryVoltage = (battVolts readings).foldl (smooth (5 < ·) bvf) s.gBatteryVoltage := by
  induction readings generalizing s with
  | nil =>
    cases h
    rfl
  | cons r readings ih =>
    obtain ⟨s', hs, hrun⟩ := run_cons_eq_some.mp h
    obtain ⟨-, hg, -⟩ := supplyStep_eq_some hs
    rw [ih hrun, hg, battVolts_cons, supplyPass]
    dsimp only
    split_ifs
    · rw [List.foldl_cons, filterVoltage_eq_smooth]
    · rfl

/-- The voltage at which `low_battery_mode` is entered. -/
theorem supplyStep_lowBattery {s t : Supply} {r : SupplyReading} (h : supplyStep s r = some t)
    (hlow : t.lowBattery = true) : t.gBatteryVoltage < 29 / 10 := by
  obtain ⟨-, hg, hpass⟩ := supplyStep_eq_some h
  rw [hpass, supplyPass, Bool.and_eq_true, decide_eq_true_eq] at hlow
  rw [hg]
  exact hlow.1

theorem run_lowBattery {s t : Supply} {readings : List SupplyReading}
    (hs : s.lowBattery = false) (h : run supplyStep s readings = some t)
    (hlow : t.lowBattery = true) : t.gBatteryVoltage < 29 / 10 := by
  have hstart : s.lowBattery = true → s.gBatteryVoltage < 29 / 10 := by
    intro hlow
    rw [hs] at hlow
    cases hlow
  exact run_invariant (P := fun u ↦ u.lowBattery = true → u.gBatteryVoltage < 29 / 10)
    (fun _ _ _ _ hstep ↦ supplyStep_lowBattery hstep) hstart h hlow

/-- **The voltage stays between the readings.**  After any readings, the first of which replaces
the value the voltage starts from, it is between the least and the greatest of them; and
`low_battery_mode` has been entered only if one of them was below 2.9 V. -/
theorem gBatteryVoltage_between {readings : List SupplyReading} {t : Supply}
    (h : run supplyStep Supply.init readings = some t) :
    (∀ lo hi, (battVolts readings).min? = some lo → (battVolts readings).max? = some hi →
        t.gBatteryVoltage ∈ Set.Icc lo hi) ∧
      (t.lowBattery = true → ∃ v ∈ battVolts readings, v < 29 / 10) := by
  refine ⟨fun lo hi hlo hhi ↦ ?_, fun hlow ↦ ?_⟩
  · have hstart : 5 < Supply.init.gBatteryVoltage := by norm_num [Supply.init]
    rw [run_gBatteryVoltage h]
    exact foldl_smooth_mem_Icc bvf_nonneg bvf_le_one hstart hlo hhi
  · -- with no reading below 2.9 V the voltage stays above it, also before the first reading
    by_contra! hvolts
    have hstart : 29 / 10 ≤ Supply.init.gBatteryVoltage := by norm_num [Supply.init]
    have hkept : 29 / 10 ≤ t.gBatteryVoltage := by
      rw [run_gBatteryVoltage h]
      exact foldl_smooth_mem (convex_Ici _) bvf_nonneg bvf_le_one hstart hvolts
    exact (run_lowBattery rfl h hlow).not_ge hkept

/-- A battery that is taken out: 5.2 V is replaced by 3 V, which comes down to 2.7 V. -/
theorem gBatteryVoltage_between_three :
    ∃ t, run supplyStep Supply.init [⟨5200, -1⟩, ⟨3000, -1⟩, ⟨0, -1⟩] = some t ∧
      t.gBatteryVoltage = 27 / 10 ∧ t.gBatteryVoltage ∈ Set.Icc 0 (26 / 5) ∧
      ∃ v ∈ battVolts [⟨5200, -1⟩, ⟨3000, -1⟩, ⟨0, -1⟩], v < 29 / 10 := by
  have hend : (run supplyStep Supply.init [⟨5200, -1⟩, ⟨3000, -1⟩, ⟨0, -1⟩]).map
      (fun t ↦ (t.gBatteryVoltage, t.lowBattery)) = some (27 / 10, true) := by decide +kernel
  obtain ⟨t, hrun, hpair⟩ := Option.map_eq_some_iff.mp hend
  obtain ⟨hvolt, hlow⟩ := Prod.mk.inj hpair
  have hmin : (battVolts [⟨5200, -1⟩, ⟨3000, -1⟩, ⟨0, -1⟩]).min? = some 0 := by decide +kernel
  have hmax : (battVolts [⟨5200, -1⟩, ⟨3000, -1⟩, ⟨0, -1⟩]).max? = some (26 / 5) := by
    decide +kernel
  obtain ⟨hbetween, hread⟩ := gBatteryVoltage_between hrun
  exact ⟨t, hrun, hvolt, hbetween 0 (26 / 5) hmin hmax, hread hlow⟩

/-! ## What the package keeps -/

/-- The supply over USB leaves the voltage of the battery alone. -/
theorem SupplyPass.apply_batteryVoltage {p : SupplyPass} {v : ℚ} (h : p.batteryVolt = some v)
    (undef : CFloat → ℤ) (d : RtdoabhSensorData) :
    (p.apply undef d).batteryVoltage =
      (rtdoaBackhaulBatteryCb undef d (.val v)).batteryVoltage := by
  rw [SupplyPass.apply, h, Option.elim_some]
  rcases p.usbVolt with _ | u
  · rfl
  · rfl

theorem SupplyPass.kept_iff {p : SupplyPass} :
    p.Kept ↔ ∀ v, p.batteryVolt = some v → -645 / 128 < v ∧ v < 5 := by
  refine forall_congr' fun v ↦ forall_congr' fun hv ↦ ?_
  rw [← between_val_iff, ← battery_fits_iff .zero, forall_congr' fun undef ↦ ?_]
  refine ⟨fun h ↦ by rw [← apply_batteryVoltage hv]; exact h .zero, fun h d ↦ ?_⟩
  rw [apply_batteryVoltage hv]
  exact h

/-- One reading. -/
theorem supplyPasses_kept_iff (s : Supply) (r : SupplyReading) (hs : 0 ≤ s.gBatteryVoltage) :
    (∀ p ∈ supplyPasses s r, p.Kept) ↔ BatteryFits s r := by
  rw [supplyPasses, BatteryFits]
  rcases hlow : s.lowBattery with _ | _
  · rw [if_neg Bool.false_ne_true, List.forall_mem_singleton, SupplyPass.kept_iff, supplyPass,
      forall_prop_of_true rfl]
    dsimp only
    split
    · rename_i hmv
      have hneg := filterVoltage_nonneg hs hmv
      rw [← filterVoltage_lt_iff, forall_prop_of_true hmv]
      constructor
      · intro h
        exact (h _ rfl).2
      · rintro h _ ⟨⟩
        exact ⟨by linarith, h⟩
    · rename_i hmv
      exact iff_of_true (fun _ h ↦ nomatch h) fun h ↦ absurd h hmv
  · exact iff_of_true (fun _ h ↦ nomatch h) fun h ↦ nomatch h

/-- **What a package gives back.**  A reading of the sensors is found in the package within a unit
exactly when each component fits its field; and over a run of the tag, every voltage that is
handed on is found within a step exactly when each reading of the battery fits the filter where it
comes. -/
theorem kept_within_unit_iff (d : RtdoabhSensorData) (type : SensorType) (data : SensorData)
    (readings : List SupplyReading) :
    ((∀ undef, ∀ p ∈ placed (rtdoaBackhaulSensorDataCb undef d data type) type data,
        Near p.1 p.2) ↔ ReadingFits type data) ∧
      ((∀ p ∈ gather supplyStep supplyPasses Supply.init readings, p.Kept) ↔
        Each supplyStep BatteryFits Supply.init readings) := by
  have hstart : 0 ≤ Supply.init.gBatteryVoltage := by norm_num [Supply.init]
  exact ⟨fits_iff d type data,
    forall_gather_iff supplyStep_nonneg supplyPasses_kept_iff hstart readings⟩

/-- A platform that keeps the low bits of what does not fit. -/
def lowBits : CFloat → ℤ
  | .val q => trunc q
  | _ => 0

/-- A knock of 40 m/s² is stored as -25.536, and 5 V as -5. -/
theorem not_kept_forty :
    (¬∀ p ∈ placed (rtdoaBackhaulSensorDataCb lowBits .zero
        (.vec (some (.val 40)) (some (.val 0)) (some (.val 0))) .accelerometer) .accelerometer
        (.vec (some (.val 40)) (some (.val 0)) (some (.val 0))), Near p.1 p.2) ∧
      ¬∀ p ∈ gather supplyStep supplyPasses Supply.init [⟨5000, -1⟩], p.Kept := by
  refine ⟨fun h ↦ ?_, fun h ↦ ?_⟩
  · have hstored : (toInt16 lowBits ((CFloat.val 40).scale 1000).round).toInt = -25536 := by
      decide +kernel
    have hnear : Near (toInt16 lowBits ((CFloat.val 40).scale 1000).round).toInt
        (.val (1000 * 40)) := h _ List.mem_cons_self
    rw [hstored, near_val_iff] at hnear
    norm_num at hnear
  · have hpass : (supplyPass Supply.init.gBatteryVoltage ⟨5000, -1⟩).batteryVolt = some 5 := by
      decide +kernel
    have hstored : (rtdoaBackhaulBatteryCb lowBits .zero (.val 5)).batteryVoltage.toInt = -128 := by
      decide +kernel
    have hnear := h _ (List.mem_singleton.mpr rfl) 5 hpass lowBits .zero
    rw [SupplyPass.apply_batteryVoltage hpass, hstored, scale, near_val_iff] at hnear
    norm_num at hnear

end UwbApps.RtdoaTag
