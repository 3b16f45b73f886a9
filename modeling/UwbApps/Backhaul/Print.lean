import UwbApps.Backhaul.State
import UwbApps.Lib.Printf
import UwbApps.Lib.Reads

/-!
# Printing a package

`rtdoaBackhaulPrint` is `rtdoa_backhaul_print`: one text for each piece of the line, in the order
of the source, as a `Reads` computation on the memory `p` points to.  The bytes of the package are
followed there by whatever the stack holds, since the code bounds its loop over the ranges by the
count in the package alone.

Floating-point arithmetic is the platform's, and is a parameter.

`printSound_iff` says for which received frames the line shows only what was received: the length
test of `rx_complete_cb` compares with the size of the sensor data without the head in front of
it, and nothing bounds the number of ranges.
-/

set_option autoImplicit false

open Octets Reads Printf
open Packed hiding dec

namespace UwbApps.Backhaul

open Os RtdoabhSensorData

/-- What the platform computes. -/
structure Platform where
  float : Arith
  double : Arith
  /-- The `float` with these bits. -/
  ofBits : BitVec 32 → float.F
  toUInt64 : double.F → BitVec 64
  toUInt32 : double.F → BitVec 32
  uwbDwtUsecsToUsecs : BitVec 64 → double.F

/-! ## The pieces of the line -/

/-- What the line is made of. -/
inductive PkgField
  | srcAddress
  | ts
  | valid
  | gpsLat
  | gpsLong
  | batteryVoltage
  | pressure
  | compass (i : Fin 3)
  | acceleration (i : Fin 3)
  | gyro (i : Fin 3)
  | refAnchorAddr
  | numRanges
  | range (i : ℕ)
deriving DecidableEq

/-- The member belongs to `p->sensors`. -/
def PkgField.ofSensors : PkgField → Bool
  | .srcAddress | .refAnchorAddr | .numRanges | .range _ => false
  | _ => true

section Pieces

variable (plat : Platform) (N : ℕ)

/-- `d->sensors_valid` and the two flags beside it. -/
def readValid : Reads PkgField (BitVec 14 × BitVec 1 × BitVec 1) :=
  member .valid (sensorField N validField)

/-- `p->ranges[i]`, wherever that is. -/
def readRange (i : ℕ) : Reads PkgField RtdoabhRangeData :=
  read (.range i) (offsetofRanges + i * sizeofRangeData) rangeLayout

/-- The piece that is printed for a kind of sensor value, when there is one. -/
def whenEnabled (bit : BitVec 14) (text : Reads PkgField String) : Reads PkgField String := do
  let (sensorsValid, _, _) ← readValid N
  if sensorsValid &&& bit ≠ 0 then text else pure ""

def printId : Reads PkgField String := do
  let srcAddress ← member .srcAddress (srcAddressField N)
  pure ("\x7b\"id\":\"0x" ++ padZero 4 (hex srcAddress.toNat) ++ "\"")

def printMode : Reads PkgField String := do
  let (_, _, isAnchorData) ← readValid N
  pure (if isAnchorData ≠ 0 then ",\"mode\":\"anchor\"" else "")

/-- The time in seconds and in units of 100 microseconds. -/
def tsText (ts : BitVec 64) : String :=
  let ts := plat.uwbDwtUsecsToUsecs ts
  let tsS := plat.toUInt64 (plat.double.div ts (plat.double.ofInt 1000000))
  let rest := plat.double.sub ts (plat.double.ofInt (tsS * 1000000).toNat)
  let tsTms := plat.toUInt32 (plat.double.div rest (plat.double.ofInt 100))
  ",\"ts\":\"" ++ dec tsS.toNat ++ "." ++ padZero 4 (dec tsTms.toNat) ++ "\""

def printTs : Reads PkgField String := do
  let ts ← member .ts (sensorField N tsField)
  pure (if ts ≠ 0 then tsText plat ts else "")

def printMid (gMsgId : BitVec 32) : Reads PkgField String :=
  pure (",\"mid\":" ++ dec gMsgId.toInt)

def degreeText (bits : BitVec 32) : String :=
  let x := plat.ofBits bits
  let frac := plat.float.toInt (plat.float.mul (plat.float.frac x) (plat.float.ofInt 1000000))
  "\"" ++ dec (plat.float.toInt x).toInt ++ "." ++ dec (absInt frac) ++ "\""

def printGps : Reads PkgField String :=
  whenEnabled N GPS_LAT_LONG_ENABLED do
    let gpsLat ← member .gpsLat (sensorField N gpsLatField)
    let gpsLong ← member .gpsLong (sensorField N gpsLongField)
    pure (",\"gps\":[" ++ degreeText plat gpsLat ++ "," ++ degreeText plat gpsLong ++ "]")

def voltText (batteryVoltage : BitVec 8) : String :=
  let ar := plat.float
  let f := ar.div (ar.mul (ar.ofInt batteryVoltage.toInt) (ar.ofInt 5)) (ar.ofInt 128)
  dec (ar.toInt f).toInt ++ "." ++
    padZero 2 (dec (absInt (ar.toInt (ar.mul (ar.ofInt 100) (ar.frac f)))))

def printBattery : Reads PkgField String :=
  whenEnabled N BATTERY_LEVELS_ENABLED do
    let batteryVoltage ← member .batteryVoltage (sensorField N batteryVoltageField)
    let (_, hasUsbPower, _) ← readValid N
    pure (",\"vbat\":\"" ++ voltText plat batteryVoltage ++ "\"" ++
      ",\"usb\":" ++ dec hasUsbPower.toNat)

/-- The three components of a vector of the sensor data. -/
def readVec3 (name : Fin 3 → PkgField) (f : Fin 3 → Field sensorLayout (BitVec 16)) :
    Reads PkgField (BitVec 16 × BitVec 16 × BitVec 16) := do
  let x ← member (name 0) (sensorField N (f 0))
  let y ← member (name 1) (sensorField N (f 1))
  let z ← member (name 2) (sensorField N (f 2))
  pure (x, y, z)

/-- A component divided by `scale`. -/
def componentText (scale : ℤ) (x : BitVec 16) : String :=
  plat.float.decimal scale (plat.float.div (plat.float.ofInt x.toInt) (plat.float.ofInt scale))

def printAcceleration : Reads PkgField String :=
  whenEnabled N ACCELEROMETER_ENABLED do
    let (x, y, z) ← readVec3 N .acceleration accelerationField
    pure (",\"a\":\"[" ++ componentText plat 1000 x ++ "," ++ componentText plat 1000 y ++ "," ++
      componentText plat 1000 z ++ "]\"")

def printGyro : Reads PkgField String :=
  whenEnabled N GYRO_ENABLED do
    let (x, y, z) ← readVec3 N .gyro gyroField
    pure (",\"g\":\"[" ++ componentText plat 10 x ++ "," ++ componentText plat 10 y ++ "," ++
      componentText plat 10 z ++ "]\"")

def printCompass : Reads PkgField String :=
  whenEnabled N COMPASS_ENABLED do
    let (x, y, z) ← readVec3 N .compass compassField
    pure (",\"m\":[" ++ dec x.toInt ++ "," ++ dec y.toInt ++ "," ++ dec z.toInt ++ "]")

def printPressure : Reads PkgField String :=
  whenEnabled N PRESSURE_ENABLED do
    let pressure ← member .pressure (sensorField N pressureField)
    pure (",\"p\":" ++ dec (pressure.toInt + 101300))

/-! ## The ranges -/

/-- The metres and millimetres of `diff_dist_mm`, without its sign. -/
def ddistText (diffDistMm : BitVec 32) : String :=
  let ddistM := diffDistMm.sdiv 1000
  let ddistMm := absInt (diffDistMm - ddistM * 1000)
  dec (absInt ddistM) ++ "." ++ padZero 3 (dec ddistMm)

def rssiText (rssi : BitVec 14) : String :=
  plat.float.decimal 10 (plat.float.div (plat.float.ofInt rssi.toInt) (plat.float.ofInt 10))

/-- The columns of the compact form: `key[j]`, and what `switch (j)` prints. -/
def columns : List (String × (RtdoabhRangeData → String)) :=
  [("a", fun r ↦ "\"" ++ hex r.anchorAddr.toNat ++ "\""),
    ("dd", fun r ↦ (if 0 < r.diffDistMm.toInt then "" else "-") ++ ddistText r.diffDistMm),
    ("rs", fun r ↦ rssiText plat r.rssi),
    ("qf", fun r ↦ hex (r.quality.signExtend 32).toNat)]

/-- One entry of the compact form. -/
def printCell (text : RtdoabhRangeData → String) (numRanges i : ℕ) : Reads PkgField String := do
  let r ← readRange i
  pure (text r ++ if i + 1 < numRanges then "," else "")

def printColumn (numRanges : ℕ) (key : String) (text : RtdoabhRangeData → String) (last : Bool) :
    Reads PkgField String := do
  let cells ← concat ((List.range numRanges).map (printCell text numRanges))
  pure ("\"" ++ key ++ "\":[" ++ cells ++ "]" ++ if last then "\x7d" else ",")

/-- The ranges with `RTDOABH_COMPACT_MEAS`. -/
def printCompact : Reads PkgField String := do
  let numRanges ← member .numRanges (numRangesField N)
  if numRanges = 0 then pure "\x7d\n"
  else do
    let refAnchorAddr ← member .refAnchorAddr (refAnchorAddrField N)
    let cols ← concat ((columns plat).zipIdx.map fun ((key, text), j) ↦
      printColumn numRanges.toNat key text (j == 3))
    pure (",\"meas\":\x7b" ++ "\"ref\":\"" ++ hex refAnchorAddr.toNat ++ "\"," ++ cols ++ "\x7d\n")

/-- One entry of the long form. -/
def printEntry (numRanges : ℕ) (tight : Bool) (i : ℕ) : Reads PkgField String := do
  let r ← readRange i
  pure ("\x7b\"addr\":\"" ++ hex r.anchorAddr.toNat ++ "\",\"ddist\":\"" ++
    (if r.diffDistMm.toInt < 0 then "-" else "") ++ ddistText r.diffDistMm ++
    "\",\"tqf\":" ++ dec r.quality.toInt ++ ",\"rssi\":\"" ++ rssiText plat r.rssi ++ "\"\x7d" ++
    (if i + 1 < numRanges then "," else "]") ++ if tight then "" else "\n  ")

/-- The ranges without `RTDOABH_COMPACT_MEAS`. -/
def printLong (tight : Bool) : Reads PkgField String := do
  let refAnchorAddr ← member .refAnchorAddr (refAnchorAddrField N)
  let numRanges ← member .numRanges (numRangesField N)
  let entries ← concat ((List.range numRanges.toNat).map (printEntry plat numRanges.toNat tight))
  pure (",\"ref_anchor\":\"" ++ hex refAnchorAddr.toNat ++ "\"" ++
    ",\"meas\":[" ++ (if tight ∨ numRanges = 0 then "" else "\n ") ++ entries ++ "]\x7d\n")

/-- `rtdoa_backhaul_print`, in a build with or without `RTDOABH_COMPACT_MEAS`. -/
def rtdoaBackhaulPrint (compact : Bool) (gMsgId : BitVec 32) (tight : Bool) :
    Reads PkgField String :=
  concat [printId N, printMode N, printTs plat N, printMid gMsgId, printGps plat N,
    printBattery plat N, printAcceleration plat N, printGyro plat N, printCompass N,
    printPressure N, if compact then printCompact plat N else printLong plat N tight]

end Pieces

/-! ## What the line reads -/

section Accesses

variable {plat : Platform} {N : ℕ} {m : Mem} {a : Access PkgField}

/-- The package in `m` has a value of this kind. -/
def Enabled (N : ℕ) (m : Mem) (bit : BitVec 14) : Prop := ((readValid N).value m).1 &&& bit ≠ 0

/-- `p->num_ranges` of the package in `m`. -/
def rangeCount (N : ℕ) (m : Mem) : ℕ :=
  ((member .numRanges (numRangesField N) : Reads PkgField _).value m).toNat

instance (N : ℕ) (m : Mem) (bit : BitVec 14) : Decidable (Enabled N m bit) := instDecidableNot

/-- All that the line can read of a package. -/
inductive Printed (N : ℕ) (m : Mem) : Access PkgField → Prop
  | outside {a : Access PkgField} (hsensors : a.field.ofSensors = false)
      (hrange : ∀ i, a.field ≠ .range i) : Printed N m a
  | front {a : Access PkgField} (hsensors : a.field.ofSensors = true) (hin : a.Inside 38) :
      Printed N m a
  | acceleration (i : Fin 3) (h : Enabled N m ACCELEROMETER_ENABLED) :
      Printed N m ⟨.acceleration i, 38 + 2 * i, 2⟩
  | gyro (i : Fin 3) (h : Enabled N m GYRO_ENABLED) : Printed N m ⟨.gyro i, 44 + 2 * i, 2⟩
  | range (i : ℕ) (h : i < rangeCount N m) : Printed N m ⟨.range i, 53 + i * 8, 8⟩

theorem accesses_readValid : (readValid N).accesses m = [⟨.valid, 19, 2⟩] := rfl

theorem mem_accesses_whenEnabled {bit : BitVec 14} {text : Reads PkgField String} :
    a ∈ (whenEnabled N bit text).accesses m ↔
      a = ⟨.valid, 19, 2⟩ ∨ Enabled N m bit ∧ a ∈ text.accesses m := by
  have hbind : (whenEnabled N bit text).accesses m = (readValid N).accesses m ++
      (if ((readValid N).value m).1 &&& bit ≠ 0 then text else pure "").accesses m := rfl
  rw [hbind, accesses_readValid, accesses_ite, List.mem_append, List.mem_singleton]
  refine or_congr_right ?_
  split
  · rename_i h
    exact (and_iff_right h).symm
  · rename_i h
    simp [show ¬ Enabled N m bit from h]

/-- A printer of three components reads all three. -/
theorem mem_accesses_vec3 {name : Fin 3 → PkgField}
    {f : Fin 3 → Field sensorLayout (BitVec 16)}
    {text : BitVec 16 × BitVec 16 × BitVec 16 → String} :
    a ∈ (readVec3 N name f >>= fun v ↦ pure (text v)).accesses m ↔
      ∃ i, a = ⟨name i, 11 + (f i).off, (f i).layout.size⟩ := by
  have hbind : (readVec3 N name f >>= fun v ↦ pure (text v)).accesses m =
      [⟨name 0, 11 + (f 0).off, (f 0).layout.size⟩, ⟨name 1, 11 + (f 1).off, (f 1).layout.size⟩,
        ⟨name 2, 11 + (f 2).off, (f 2).layout.size⟩] := rfl
  rw [hbind]
  constructor
  · intro h
    simp only [List.mem_cons, List.not_mem_nil, or_false] at h
    rcases h with rfl | rfl | rfl
    · exact ⟨0, rfl⟩
    · exact ⟨1, rfl⟩
    · exact ⟨2, rfl⟩
  · rintro ⟨i, rfl⟩
    obtain rfl | rfl | rfl : i = 0 ∨ i = 1 ∨ i = 2 := by omega
    · simp
    · simp
    · simp

/-- Each of the ranges is read. -/
theorem mem_accesses_entries {n : ℕ} {entry : ℕ → Reads PkgField String}
    (hentry : ∀ i, (entry i).accesses m = (readRange i).accesses m) :
    a ∈ (concat ((List.range n).map entry)).accesses m ↔
      ∃ i < n, a = ⟨.range i, 53 + i * 8, 8⟩ := by
  rw [mem_accesses_concat]
  constructor
  · rintro ⟨x, hx, ha⟩
    obtain ⟨i, hi, rfl⟩ := List.mem_map.mp hx
    rw [hentry] at ha
    exact ⟨i, List.mem_range.mp hi, List.mem_singleton.mp ha⟩
  · rintro ⟨i, hi, rfl⟩
    refine ⟨entry i, List.mem_map_of_mem (List.mem_range.mpr hi), ?_⟩
    rw [hentry]
    exact List.mem_singleton.mpr rfl

theorem mem_accesses_printColumn {n : ℕ} {key : String} {text : RtdoabhRangeData → String}
    {last : Bool} :
    a ∈ (printColumn n key text last).accesses m ↔ ∃ i < n, a = ⟨.range i, 53 + i * 8, 8⟩ := by
  have hbind : (printColumn n key text last).accesses m =
      (concat ((List.range n).map (printCell text n))).accesses m ++ [] := rfl
  rw [hbind, List.append_nil]
  exact mem_accesses_entries fun _ ↦ rfl

theorem mem_accesses_columns {n : ℕ} :
    a ∈ (concat ((columns plat).zipIdx.map fun ((key, text), j) ↦
        printColumn n key text (j == 3))).accesses m ↔ ∃ i < n, a = ⟨.range i, 53 + i * 8, 8⟩ := by
  rw [mem_accesses_concat]
  simp [columns, mem_accesses_printColumn]

theorem mem_accesses_printCompact : a ∈ (printCompact plat N).accesses m ↔
    a = ⟨.numRanges, 52, 1⟩ ∨ (rangeCount N m ≠ 0 ∧ (a = ⟨.refAnchorAddr, 50, 2⟩ ∨
      ∃ i < rangeCount N m, a = ⟨.range i, 53 + i * 8, 8⟩)) := by
  have hcount : rangeCount N m = 0 ↔
      (member .numRanges (numRangesField N) : Reads PkgField _).value m = 0 := by
    rw [rangeCount, ← BitVec.toNat_inj]
    rfl
  rw [printCompact, accesses_bind, accesses_member, List.mem_append, List.mem_singleton,
    accesses_ite]
  refine or_congr Iff.rfl ?_
  split
  · rename_i hzero
    simp [hcount.mpr hzero]
  · rename_i hne
    rw [accesses_bind, accesses_bind, accesses_pure, List.append_nil, List.mem_append,
      accesses_member, List.mem_singleton]
    refine Iff.trans (or_congr Iff.rfl mem_accesses_columns) ?_
    exact (and_iff_right fun hzero ↦ hne (hcount.mp hzero)).symm

theorem mem_accesses_printLong {tight : Bool} : a ∈ (printLong plat N tight).accesses m ↔
    a = ⟨.refAnchorAddr, 50, 2⟩ ∨ a = ⟨.numRanges, 52, 1⟩ ∨
      ∃ i < rangeCount N m, a = ⟨.range i, 53 + i * 8, 8⟩ := by
  have hbind : (printLong plat N tight).accesses m = [⟨.refAnchorAddr, 50, 2⟩] ++
      ([⟨.numRanges, 52, 1⟩] ++ ((concat ((List.range (rangeCount N m)).map
        (printEntry plat (rangeCount N m) tight))).accesses m ++ [])) := rfl
  rw [hbind, List.append_nil, List.mem_append, List.mem_append, List.mem_singleton,
    List.mem_singleton, mem_accesses_entries fun _ ↦ rfl]

/-- An access outside the sensor data, to no range. -/
theorem printed_of_eq {name : PkgField} {off size : ℕ} (hsensors : name.ofSensors = false)
    (hrange : ∀ i, name ≠ .range i) (h : a = ⟨name, off, size⟩) : Printed N m a := by
  rw [h]
  exact .outside hsensors hrange

/-- An access to a member in front of the acceleration. -/
theorem printed_of_front {β : Type} (f : Field sensorLayout β) {name : PkgField}
    (hsensors : name.ofSensors = true) (hin : f.off + f.layout.size ≤ 27)
    (h : a = ⟨name, (sensorField N f).off, (sensorField N f).layout.size⟩) : Printed N m a := by
  rw [h]
  refine .front hsensors ?_
  show 11 + f.off + f.layout.size ≤ 38
  omega

theorem accelerationField_off (i : Fin 3) : (accelerationField i).off = 27 + 2 * i := by
  show 8 + (2 + (4 + (4 + (1 + (2 + (6 + ((i : ℕ) * 2 + 0))))))) = _
  omega

theorem gyroField_off (i : Fin 3) : (gyroField i).off = 33 + 2 * i := by
  show 8 + (2 + (4 + (4 + (1 + (2 + (6 + (6 + ((i : ℕ) * 2 + 0)))))))) = _
  omega

theorem compassField_off (i : Fin 3) : (compassField i).off = 21 + 2 * i := by
  show 8 + (2 + (4 + (4 + (1 + (2 + ((i : ℕ) * 2 + 0)))))) = _
  omega

theorem mem_accesses_printAcceleration : a ∈ (printAcceleration plat N).accesses m ↔
    a = ⟨.valid, 19, 2⟩ ∨
      Enabled N m ACCELEROMETER_ENABLED ∧ ∃ i : Fin 3, a = ⟨.acceleration i, 38 + 2 * i, 2⟩ := by
  have hoff : ∀ i : Fin 3, 11 + (accelerationField i).off = 38 + 2 * i := by
    intro i
    rw [accelerationField_off]
    omega
  simp only [← hoff]
  exact mem_accesses_whenEnabled.trans (or_congr_right (and_congr_right' mem_accesses_vec3))

theorem mem_accesses_printGyro : a ∈ (printGyro plat N).accesses m ↔
    a = ⟨.valid, 19, 2⟩ ∨
      Enabled N m GYRO_ENABLED ∧ ∃ i : Fin 3, a = ⟨.gyro i, 44 + 2 * i, 2⟩ := by
  have hoff : ∀ i : Fin 3, 11 + (gyroField i).off = 44 + 2 * i := by
    intro i
    rw [gyroField_off]
    omega
  simp only [← hoff]
  exact mem_accesses_whenEnabled.trans (or_congr_right (and_congr_right' mem_accesses_vec3))

/-- **What the line reads** is `Printed`. -/
theorem printed_of_mem_accesses {compact tight : Bool} {gMsgId : BitVec 32}
    (h : a ∈ (rtdoaBackhaulPrint plat N compact gMsgId tight).accesses m) : Printed N m a := by
  rw [rtdoaBackhaulPrint, mem_accesses_concat] at h
  simp only [List.mem_cons, List.not_mem_nil, or_false, exists_eq_or_imp, exists_eq_left] at h
  have hvalid : a = ⟨.valid, 19, 2⟩ → Printed N m a := printed_of_front validField rfl (by decide)
  have hranges : (∃ i < rangeCount N m, a = ⟨.range i, 53 + i * 8, 8⟩) → Printed N m a := by
    rintro ⟨i, hi, rfl⟩
    exact .range i hi
  -- one case for each piece of the line
  rcases h with h | h | h | h | h | h | h | h | h | h | h
  · exact printed_of_eq rfl (by simp) (List.mem_singleton.mp h)
  · exact hvalid (List.mem_singleton.mp h)
  · exact printed_of_front tsField rfl (by decide) (List.mem_singleton.mp h)
  · simp [printMid] at h
  · rcases mem_accesses_whenEnabled.mp h with h | ⟨-, h⟩
    · exact hvalid h
    · rcases List.mem_pair.mp h with h | h
      · exact printed_of_front gpsLatField rfl (by decide) h
      · exact printed_of_front gpsLongField rfl (by decide) h
  · rcases mem_accesses_whenEnabled.mp h with h | ⟨-, h⟩
    · exact hvalid h
    · rcases List.mem_pair.mp h with h | h
      · exact printed_of_front batteryVoltageField rfl (by decide) h
      · exact hvalid h
  · rcases mem_accesses_printAcceleration.mp h with h | ⟨henabled, i, rfl⟩
    · exact hvalid h
    · exact .acceleration i henabled
  · rcases mem_accesses_printGyro.mp h with h | ⟨henabled, i, rfl⟩
    · exact hvalid h
    · exact .gyro i henabled
  · rcases mem_accesses_whenEnabled.mp h with h | ⟨-, h⟩
    · exact hvalid h
    · obtain ⟨i, h⟩ := mem_accesses_vec3.mp h
      refine printed_of_front (compassField i) rfl ?_ h
      rw [compassField_off]
      show 21 + 2 * (i : ℕ) + 2 ≤ 27
      omega
  · rcases mem_accesses_whenEnabled.mp h with h | ⟨-, h⟩
    · exact hvalid h
    · exact printed_of_front pressureField rfl (by decide) (List.mem_singleton.mp h)
  · split at h
    · rcases mem_accesses_printCompact.mp h with h | ⟨-, h | h⟩
      · exact printed_of_eq rfl (by simp) h
      · exact printed_of_eq rfl (by simp) h
      · exact hranges h
    · rcases mem_accesses_printLong.mp h with h | h | h
      · exact printed_of_eq rfl (by simp) h
      · exact printed_of_eq rfl (by simp) h
      · exact hranges h

/-- Every range that is counted is read. -/
theorem mem_accesses_of_range {compact tight : Bool} {gMsgId : BitVec 32} {i : ℕ}
    (h : i < rangeCount N m) :
    ⟨.range i, 53 + i * 8, 8⟩ ∈ (rtdoaBackhaulPrint plat N compact gMsgId tight).accesses m := by
  rw [rtdoaBackhaulPrint, mem_accesses_concat]
  refine ⟨_, List.mem_of_getLast? (by simp; rfl), ?_⟩
  split
  · exact mem_accesses_printCompact.mpr (Or.inr ⟨by omega, Or.inr ⟨i, h, rfl⟩⟩)
  · exact mem_accesses_printLong.mpr (Or.inr (Or.inr ⟨i, h, rfl⟩))

/-- The acceleration is read when it is there, -/
theorem mem_accesses_of_acceleration {compact tight : Bool} {gMsgId : BitVec 32} (i : Fin 3)
    (h : Enabled N m ACCELEROMETER_ENABLED) :
    ⟨.acceleration i, 38 + 2 * i, 2⟩ ∈
      (rtdoaBackhaulPrint plat N compact gMsgId tight).accesses m := by
  rw [rtdoaBackhaulPrint, mem_accesses_concat]
  exact ⟨printAcceleration plat N, by simp, mem_accesses_printAcceleration.mpr (Or.inr ⟨h, i, rfl⟩)⟩

/-- and so is the turn rate. -/
theorem mem_accesses_of_gyro {compact tight : Bool} {gMsgId : BitVec 32} (i : Fin 3)
    (h : Enabled N m GYRO_ENABLED) :
    ⟨.gyro i, 44 + 2 * i, 2⟩ ∈ (rtdoaBackhaulPrint plat N compact gMsgId tight).accesses m := by
  rw [rtdoaBackhaulPrint, mem_accesses_concat]
  exact ⟨printGyro plat N, by simp, mem_accesses_printGyro.mpr (Or.inr ⟨h, i, rfl⟩)⟩

end Accesses

/-! ## Printing a message -/

variable {β : Type*}

/-- The memory from `pkg` on in `process_rx_data_queue`: the message, cut to the package or filled
up with zeros, and then the stack. -/
def pkgMem (N : ℕ) (stack : Mem) (om : Mbuf β) : Mem :=
  let payloadLen := min om.data.length (sizeofPkg N)
  let cleared : Mem := fun k ↦ if k < sizeofPkg N then 0 else stack k
  (osMbufCopydata om 0 payloadLen cleared).1

/-- Inside the package it is the message and zeros. -/
theorem pkgMem_of_lt {N k : ℕ} (stack : Mem) (om : Mbuf β) (h : k < sizeofPkg N) :
    pkgMem N stack om k = load om.data k := by
  have hslice : (slice om.data 0 (min om.data.length (sizeofPkg N))).length =
      min om.data.length (sizeofPkg N) := by
    rw [length_slice]
    omega
  simp only [pkgMem, osMbufCopydata]
  rcases Nat.lt_or_ge k (min om.data.length (sizeofPkg N)) with hin | hout
  · rw [store_of_mem _ (Nat.zero_le k) (by omega), Nat.sub_zero, getD_slice _ hin, Nat.zero_add,
      load]
  · rw [store_of_ge _ (by omega), if_pos h, load, List.getD_eq_default _ _ (by omega)]

/-- A member of the package is read from the message and zeros. -/
theorem value_member_pkgMem {N : ℕ} {γ : Type} (name : PkgField) (f : Field (pkgLayout N) γ)
    (stack : Mem) (om : Mbuf β) :
    (member name f : Reads PkgField γ).value (pkgMem N stack om) =
      (member name f : Reads PkgField γ).value (load om.data) := by
  refine congrArg Prod.fst ((member name f).run_congr _ _ fun a ha k _ hk ↦ ?_)
  rw [List.mem_singleton.mp ha] at hk
  exact (pkgMem_of_lt stack om (lt_of_lt_of_le hk f.off_add_size_le)).symm

theorem enabled_pkgMem {N : ℕ} (stack : Mem) (om : Mbuf β) (bit : BitVec 14) :
    Enabled N (pkgMem N stack om) bit ↔ Enabled N (load om.data) bit := by
  rw [Enabled, Enabled, readValid, value_member_pkgMem]

theorem rangeCount_pkgMem {N : ℕ} (stack : Mem) (om : Mbuf β) :
    rangeCount N (pkgMem N stack om) = rangeCount N (load om.data) := by
  rw [rangeCount, rangeCount, value_member_pkgMem]

/-- A line shows only what was received: the ranges it reads are slots of the package, and they
and the sensor values lie in the first `frameLen` bytes. -/
structure PrintSound (N frameLen : ℕ) (as : List (Access PkgField)) : Prop where
  ranges : ∀ a ∈ as, ∀ i, a.field = .range i → i < N ∧ a.Inside frameLen
  sensors : ∀ a ∈ as, a.field.ofSensors = true → a.Inside frameLen

/-- The frame has what its own head announces: the acceleration and the turn rate if their bits are
set, and as many ranges as it counts, in no more than the slots there are. -/
structure Received (N frameLen : ℕ) (data : List UInt8) : Prop where
  acceleration : Enabled N (load data) ACCELEROMETER_ENABLED → 44 ≤ frameLen
  gyro : Enabled N (load data) GYRO_ENABLED → 50 ≤ frameLen
  slots : rangeCount N (load data) ≤ N
  ranges : rangeCount N (load data) ≠ 0 → 53 + 8 * rangeCount N (load data) ≤ frameLen

/-- A line read from a message shows only what was received when the message was complete. -/
theorem printSound_iff_received (plat : Platform) (compact : Bool) {N frameLen : ℕ} (stack : Mem)
    (gMsgId : BitVec 32) (om : Mbuf β) (hlen : 39 ≤ frameLen) :
    PrintSound N frameLen
        ((rtdoaBackhaulPrint plat N compact gMsgId true).accesses (pkgMem N stack om)) ↔
      Received N frameLen om.data := by
  constructor
  · rintro ⟨hranges, hsensors⟩
    have hlast : rangeCount N (load om.data) ≠ 0 →
        rangeCount N (load om.data) - 1 < N ∧
          53 + (rangeCount N (load om.data) - 1) * 8 + 8 ≤ frameLen := by
      intro hne
      refine hranges _ (mem_accesses_of_range ?_) _ rfl
      rw [rangeCount_pkgMem]
      omega
    refine ⟨fun h ↦ ?_, fun h ↦ ?_, ?_, fun hne ↦ ?_⟩
    · exact hsensors _ (mem_accesses_of_acceleration 2 ((enabled_pkgMem stack om _).mpr h)) rfl
    · exact hsensors _ (mem_accesses_of_gyro 2 ((enabled_pkgMem stack om _).mpr h)) rfl
    · by_contra hmore
      have := (hlast (by omega)).1
      omega
    · have := (hlast hne).2
      omega
  · rintro ⟨hacc, hgyro, hslots, hranges⟩
    refine ⟨fun a ha i hi ↦ ?_, fun a ha hs ↦ ?_⟩
    · cases printed_of_mem_accesses ha with
      | outside _ hno => exact absurd hi (hno i)
      | front hs => simp [hi, PkgField.ofSensors] at hs
      | acceleration | gyro => cases hi
      | range j hj =>
        cases hi
        rw [rangeCount_pkgMem] at hj
        have := hranges (by omega)
        exact ⟨by omega, show 53 + i * 8 + 8 ≤ frameLen by omega⟩
    · cases printed_of_mem_accesses ha with
      | outside hno => simp [hno] at hs
      | front _ hin => exact le_trans hin (by omega)
      | acceleration i h =>
        have := hacc ((enabled_pkgMem stack om _).mp h)
        show 38 + 2 * (i : ℕ) + 2 ≤ frameLen
        omega
      | gyro i h =>
        have := hgyro ((enabled_pkgMem stack om _).mp h)
        show 44 + 2 * (i : ℕ) + 2 ≤ frameLen
        omega
      | range => cases hs

/-- A frame that is queued is queued with its first bytes. -/
theorem queued_message [DecidableEq β] {s t : State β} {inst : UwbDev} {env : MbufEnv β}
    (h : rxCompleteCb s inst env = some (t, .queued)) :
    ∃ om, t.rxpktQ = s.rxpktQ ++ [om] ∧
      om.data = fetch inst.rxbuf (msgDlen inst.frameLen.toNat) ∧ Accepts s inst := by
  generalize hexit : RxExit.queued = exit at h
  cases rxCase_of_eq h with
  | @queued _ _ _ om hacc _ _ _ _ _ _ _ hdata =>
    exact ⟨om, (sameStore_releaseIfTaken _).rxpktQ, hdata, hacc⟩
  | _ => cases hexit

/-- **What the bridge prints of a received frame.**  When `rx_complete_cb` queues a frame, the line
printed for it shows only what was received exactly if the frame has all that its own bits and its
own count announce. -/
theorem printSound_iff [DecidableEq β] (plat : Platform) (compact : Bool) (N : ℕ) (stack : Mem)
    (gMsgId : BitVec 32) {s t : State β} {inst : UwbDev} {env : MbufEnv β}
    (h : rxCompleteCb s inst env = some (t, .queued)) :
    ∃ om, t.rxpktQ = s.rxpktQ ++ [om] ∧
      (PrintSound N inst.frameLen.toNat
          ((rtdoaBackhaulPrint plat N compact gMsgId true).accesses (pkgMem N stack om)) ↔
        Received N inst.frameLen.toNat
          (fetch inst.rxbuf (msgDlen inst.frameLen.toNat))) := by
  obtain ⟨om, hq, hdata, hacc⟩ := queued_message h
  rw [← hdata]
  exact ⟨om, hq, printSound_iff_received plat compact stack gMsgId om hacc.frameLen⟩

/-- A platform that computes in whole numbers. -/
def samplePlatform : Platform :=
  let int : Arith := ⟨ℤ, id, (· - ·), (· * ·), (· / ·), BitVec.ofInt 32⟩
  ⟨int, int, fun b ↦ b.toInt, BitVec.ofInt 64, BitVec.ofInt 32, fun ts ↦ ts.toNat⟩

/-- The frame of `sampleFrame`, announcing an acceleration and `n` ranges. -/
def announcingFrame (n : UInt8) (frameLen : BitVec 16) : UwbDev :=
  { sampleFrame with rxbuf := store (store sampleFrame.rxbuf 19 [0x10]) 52 [n], frameLen }

theorem printSound_complete_frame :
    ∃ (t : State ℕ) (om : Mbuf ℕ), rxCompleteCb { (State.init : State ℕ) with gRole := .bridge }
        (announcingFrame 1 61) ⟨some 0, ⟨[], true⟩, true⟩ = some (t, .queued) ∧ t.rxpktQ = [om] ∧
      PrintSound 16 61
        ((rtdoaBackhaulPrint samplePlatform 16 true 0 true).accesses
          (pkgMem 16 (fun _ ↦ 0xff) om)) := by
  have hexit : (rxCompleteCb { (State.init : State ℕ) with gRole := .bridge }
      (announcingFrame 1 61) ⟨some 0, ⟨[], true⟩, true⟩).map Prod.snd = some .queued := by
    decide
  obtain ⟨⟨t, exit⟩, ht, rfl⟩ := Option.map_eq_some_iff.mp hexit
  obtain ⟨om, hq, hiff⟩ := printSound_iff samplePlatform true 16 (fun _ ↦ 0xff) 0 ht
  exact ⟨t, om, ht, hq, hiff.mpr ⟨by decide, by decide, by decide, by decide⟩⟩

/-- A frame of 53 bytes that counts 255 ranges is queued, and the line reads past the array. -/
theorem not_printSound_counting_frame :
    ∃ (t : State ℕ) (om : Mbuf ℕ), rxCompleteCb { (State.init : State ℕ) with gRole := .bridge }
        (announcingFrame 255 53) ⟨some 0, ⟨[], true⟩, true⟩ = some (t, .queued) ∧ t.rxpktQ = [om] ∧
      ¬ PrintSound 16 53
        ((rtdoaBackhaulPrint samplePlatform 16 true 0 true).accesses
          (pkgMem 16 (fun _ ↦ 0xff) om)) := by
  have hexit : (rxCompleteCb { (State.init : State ℕ) with gRole := .bridge }
      (announcingFrame 255 53) ⟨some 0, ⟨[], true⟩, true⟩).map Prod.snd = some .queued := by
    decide
  obtain ⟨⟨t, exit⟩, ht, rfl⟩ := Option.map_eq_some_iff.mp hexit
  obtain ⟨om, hq, hdata, -⟩ := queued_message ht
  refine ⟨t, om, ht, hq, fun h ↦ ?_⟩
  have hcount : rangeCount 16 (pkgMem 16 (fun _ ↦ 0xff) om) = 255 := by
    rw [rangeCount_pkgMem, hdata]
    decide
  have hslot := h.ranges _ (mem_accesses_of_range (by rw [hcount]; decide : 16 < _)) 16 rfl
  exact absurd hslot.1 (by decide)

end UwbApps.Backhaul
