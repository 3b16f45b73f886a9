import UwbApps.Lib.Packed

/-!
# The backhaul packages and their layout

The structures of `rtdoa_backhaul.h` and, for each, its packed layout: `headLayout`,
`sensorLayout`, `rangeLayout` and `pkgLayout`.  The package is generic in the number of range
slots, `RTDOABH_MAXNUM_RANGES`, written `N`.

The positions the code refers to by `sizeof` and `offsetof` are the constants below;
`encode_eq` is the package spelled out section by section, which is where they come from.  The
members of the package that are read one by one are `Packed.Field`s, so that reading one out of a
memory is reading it out of the package there.
-/

set_option autoImplicit false

open Octets Packed

namespace UwbApps.Backhaul

/-- `struct _ieee_rng_request_frame_t`: the head every ranging frame starts with. -/
structure IeeeRngRequestFrame where
  fctrl : BitVec 16
  seqNum : BitVec 8
  panId : BitVec 16
  dstAddress : BitVec 16
  srcAddress : BitVec 16
  code : BitVec 16
deriving DecidableEq

/-- `struct rtdoabh_sensor_data`.  The `float` fields are kept as the bits they are sent as. -/
structure RtdoabhSensorData where
  /-- Timestamp in the master's clock frame (`dwt_usecs`). -/
  ts : BitVec 64
  /-- One bit per kind of value, filled in as values arrive. -/
  sensorsValid : BitVec 14
  hasUsbPower : BitVec 1
  isAnchorData : BitVec 1
  gpsLat : BitVec 32
  gpsLong : BitVec 32
  /-- In steps of 5/128 V. -/
  batteryVoltage : BitVec 8
  pressure : BitVec 16
  compass : Vector (BitVec 16) 3
  acceleration : Vector (BitVec 16) 3
  gyro : Vector (BitVec 16) 3
deriving DecidableEq

/-- `struct rtdoabh_range_data`. -/
structure RtdoabhRangeData where
  anchorAddr : BitVec 16
  diffDistMm : BitVec 32
  rssi : BitVec 14
  quality : BitVec 2
deriving DecidableEq

/-- `struct rtdoabh_tag_results_pkg`, with room for `N` ranges. -/
structure RtdoabhTagResultsPkg (N : ℕ) where
  head : IeeeRngRequestFrame
  sensors : RtdoabhSensorData
  refAnchorAddr : BitVec 16
  numRanges : BitVec 8
  ranges : Vector RtdoabhRangeData N
deriving DecidableEq

/-- `rtdoa_backhaul_role_t`. -/
inductive RtdoaBackhaulRole
  | invalid
  /-- Bridge UWB to USB / UDP. -/
  | bridge
  | producer
deriving DecidableEq, Repr

/-! ## Constants of the header -/

def GPS_LAT_LONG_ENABLED : BitVec 14 := 0x0001
def COMPASS_ENABLED : BitVec 14 := 0x0008
def ACCELEROMETER_ENABLED : BitVec 14 := 0x0010
def GYRO_ENABLED : BitVec 14 := 0x0020
def PRESSURE_ENABLED : BitVec 14 := 0x0040
def BATTERY_LEVELS_ENABLED : BitVec 14 := 0x0080

def FCNTL_IEEE_RTDOABH : BitVec 16 := 0x88C1
def DWT_RTDOABH_CODE : BitVec 16 := 0x6003
def UWB_BROADCAST_ADDRESS : BitVec 16 := 0xffff

/-! ## Layouts -/

private def headEquiv :
    BitVec 16 × BitVec 8 × BitVec 16 × BitVec 16 × BitVec 16 × BitVec 16 ≃
      IeeeRngRequestFrame where
  toFun p := ⟨p.1, p.2.1, p.2.2.1, p.2.2.2.1, p.2.2.2.2.1, p.2.2.2.2.2⟩
  invFun f := (f.fctrl, f.seqNum, f.panId, f.dstAddress, f.srcAddress, f.code)
  left_inv _ := rfl
  right_inv _ := rfl

def headLayout : Packed IeeeRngRequestFrame :=
  iso (pair (uint 2) (pair (uint 1) (pair (uint 2) (pair (uint 2) (pair (uint 2) (uint 2))))))
    headEquiv

/-- `sensors_valid:14`, `has_usb_power:1` and `is_anchor_data:1`, low bits first. -/
def validLayout : Packed (BitVec 14 × BitVec 1 × BitVec 1) :=
  iso (uint 2) ((splitBits 2 14).trans ((Equiv.refl _).prodCongr (splitBits 1 1)))

def vec3Layout : Packed (Vector (BitVec 16) 3) := array 3 (uint 2)

private def sensorEquiv :
    BitVec 64 × (BitVec 14 × BitVec 1 × BitVec 1) × BitVec 32 × BitVec 32 × BitVec 8 × BitVec 16 ×
      Vector (BitVec 16) 3 × Vector (BitVec 16) 3 × Vector (BitVec 16) 3 ≃ RtdoabhSensorData where
  toFun p := ⟨p.1, p.2.1.1, p.2.1.2.1, p.2.1.2.2, p.2.2.1, p.2.2.2.1, p.2.2.2.2.1, p.2.2.2.2.2.1,
    p.2.2.2.2.2.2.1, p.2.2.2.2.2.2.2.1, p.2.2.2.2.2.2.2.2⟩
  invFun d := (d.ts, (d.sensorsValid, d.hasUsbPower, d.isAnchorData), d.gpsLat, d.gpsLong,
    d.batteryVoltage, d.pressure, d.compass, d.acceleration, d.gyro)
  left_inv _ := rfl
  right_inv _ := rfl

def sensorLayout : Packed RtdoabhSensorData :=
  iso (pair (uint 8) (pair validLayout (pair (uint 4) (pair (uint 4) (pair (uint 1) (pair (uint 2)
    (pair vec3Layout (pair vec3Layout vec3Layout)))))))) sensorEquiv

private def rangeEquiv :
    BitVec 16 × BitVec 32 × BitVec 14 × BitVec 2 ≃ RtdoabhRangeData where
  toFun p := ⟨p.1, p.2.1, p.2.2.1, p.2.2.2⟩
  invFun r := (r.anchorAddr, r.diffDistMm, r.rssi, r.quality)
  left_inv _ := rfl
  right_inv _ := rfl

def rangeLayout : Packed RtdoabhRangeData :=
  iso (pair (uint 2) (pair (uint 4) (iso (uint 2) (splitBits 2 14)))) rangeEquiv

private def pkgEquiv (N : ℕ) :
    IeeeRngRequestFrame × RtdoabhSensorData × BitVec 16 × BitVec 8 × Vector RtdoabhRangeData N ≃
      RtdoabhTagResultsPkg N where
  toFun p := ⟨p.1, p.2.1, p.2.2.1, p.2.2.2.1, p.2.2.2.2⟩
  invFun p := (p.head, p.sensors, p.refAnchorAddr, p.numRanges, p.ranges)
  left_inv _ := rfl
  right_inv _ := rfl

def pkgLayout (N : ℕ) : Packed (RtdoabhTagResultsPkg N) :=
  iso (pair headLayout (pair sensorLayout (pair (uint 2) (pair (uint 1) (array N rangeLayout)))))
    (pkgEquiv N)

/-! ## Members -/

section Members

variable {β : Type*}

/-- `d->ts`, and so on for the other members of the sensor data. -/
def RtdoabhSensorData.tsField : Field sensorLayout (BitVec 64) := (Field.fst (.whole _)).iso _

def RtdoabhSensorData.validField : Field sensorLayout (BitVec 14 × BitVec 1 × BitVec 1) :=
  (Field.snd (.fst (.whole _))).iso _

def RtdoabhSensorData.gpsLatField : Field sensorLayout (BitVec 32) :=
  (Field.snd (.snd (.fst (.whole _)))).iso _

def RtdoabhSensorData.gpsLongField : Field sensorLayout (BitVec 32) :=
  (Field.snd (.snd (.snd (.fst (.whole _))))).iso _

def RtdoabhSensorData.batteryVoltageField : Field sensorLayout (BitVec 8) :=
  (Field.snd (.snd (.snd (.snd (.fst (.whole _)))))).iso _

def RtdoabhSensorData.pressureField : Field sensorLayout (BitVec 16) :=
  (Field.snd (.snd (.snd (.snd (.snd (.fst (.whole _))))))).iso _

def RtdoabhSensorData.compassField (i : Fin 3) : Field sensorLayout (BitVec 16) :=
  (Field.snd (.snd (.snd (.snd (.snd (.snd (.fst (.elem (.whole _) i)))))))).iso _

def RtdoabhSensorData.accelerationField (i : Fin 3) : Field sensorLayout (BitVec 16) :=
  (Field.snd (.snd (.snd (.snd (.snd (.snd (.snd (.fst (.elem (.whole _) i))))))))).iso _

def RtdoabhSensorData.gyroField (i : Fin 3) : Field sensorLayout (BitVec 16) :=
  (Field.snd (.snd (.snd (.snd (.snd (.snd (.snd (.snd (.elem (.whole _) i))))))))).iso _

/-- `p->head.src_address`. -/
def srcAddressField (N : ℕ) : Field (pkgLayout N) (BitVec 16) :=
  (Field.fst ((Field.snd (.snd (.snd (.snd (.fst (.whole _)))))).iso _)).iso _

/-- A member of `p->sensors`. -/
def sensorField (N : ℕ) (f : Field sensorLayout β) : Field (pkgLayout N) β :=
  (Field.snd (.fst f)).iso _

/-- `p->ref_anchor_addr`. -/
def refAnchorAddrField (N : ℕ) : Field (pkgLayout N) (BitVec 16) :=
  (Field.snd (.snd (.fst (.whole _)))).iso _

/-- `p->num_ranges`. -/
def numRangesField (N : ℕ) : Field (pkgLayout N) (BitVec 8) :=
  (Field.snd (.snd (.snd (.fst (.whole _))))).iso _

end Members

/-! ## Sizes and offsets -/

/-- `sizeof(struct _ieee_rng_request_frame_t)`. -/
def sizeofHead : ℕ := headLayout.size

/-- `sizeof(struct rtdoabh_sensor_data)`. -/
def sizeofSensorData : ℕ := sensorLayout.size

/-- `sizeof(struct rtdoabh_range_data)`. -/
def sizeofRangeData : ℕ := rangeLayout.size

/-- `sizeof(struct rtdoabh_tag_results_pkg)`. -/
def sizeofPkg (N : ℕ) : ℕ := (pkgLayout N).size

/-- `offsetof(struct rtdoabh_tag_results_pkg, ref_anchor_addr)`. -/
def offsetofRefAnchorAddr : ℕ := sizeofHead + sizeofSensorData

/-- `offsetof(struct rtdoabh_tag_results_pkg, num_ranges)`. -/
def offsetofNumRanges : ℕ := offsetofRefAnchorAddr + 2

/-- `offsetof(struct rtdoabh_tag_results_pkg, ranges)`. -/
def offsetofRanges : ℕ := offsetofNumRanges + 1

@[simp] theorem sizeofHead_eq : sizeofHead = 11 := rfl

@[simp] theorem sizeofSensorData_eq : sizeofSensorData = 39 := rfl

@[simp] theorem sizeofRangeData_eq : sizeofRangeData = 8 := rfl

@[simp] theorem offsetofRefAnchorAddr_eq : offsetofRefAnchorAddr = 50 := rfl

@[simp] theorem offsetofNumRanges_eq : offsetofNumRanges = 52 := rfl

@[simp] theorem offsetofRanges_eq : offsetofRanges = 53 := rfl

theorem sizeofPkg_eq (N : ℕ) : sizeofPkg N = 53 + 8 * N := by
  have hsize : sizeofPkg N = 11 + (39 + (2 + (1 + N * 8))) := rfl
  omega

/-- The bytes of a package. -/
def encode {N : ℕ} (p : RtdoabhTagResultsPkg N) : List UInt8 := (pkgLayout N).enc p

@[simp] theorem length_encode {N : ℕ} (p : RtdoabhTagResultsPkg N) :
    (encode p).length = sizeofPkg N :=
  (pkgLayout N).length_enc p

/-- The package section by section. -/
theorem encode_eq {N : ℕ} (p : RtdoabhTagResultsPkg N) :
    encode p = (headLayout.enc p.head ++ sensorLayout.enc p.sensors) ++
      ((uint 2).enc p.refAnchorAddr ++
        ((uint 1).enc p.numRanges ++ (array N rangeLayout).enc p.ranges)) := by
  rw [List.append_assoc]
  rfl

end UwbApps.Backhaul
