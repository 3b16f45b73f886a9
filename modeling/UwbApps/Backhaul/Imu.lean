import UwbApps.Backhaul.Bridge
import UwbApps.Lib.Log

/-!
# What an IMU-only package carries

The callbacks of the sensors and of the supply write to `g_result_pkg_imu` as they are called, and
`rtdoa_backhaul_send_imu_only` sends it and clears its sensor data.  So a package carries what came
in since the one before, of each kind the latest valid reading: `sendImuOnly_sensors`.

`loggedSensors` is that package, told from the calls alone.  Three types of sensor share the
acceleration, and the package a round is sent with is another one, which these calls do not touch.
-/

set_option autoImplicit false

open Run Log

namespace UwbApps.Backhaul

variable {N : ℕ} {φ β : Type*}

/-- The kinds of values that have a bit of `sensors_valid`. -/
inductive SensorKind
  | acceleration
  | compass
  | gyro
  | pressure
  | battery
deriving DecidableEq

def SensorKind.bit : SensorKind → BitVec 14
  | .acceleration => ACCELEROMETER_ENABLED
  | .compass => COMPASS_ENABLED
  | .gyro => GYRO_ENABLED
  | .pressure => PRESSURE_ENABLED
  | .battery => BATTERY_LEVELS_ENABLED

/-! ## Readings -/

/-- The components of a reading by a sensor of one of the types, if all of them are valid. -/
def vecReading (types : List SensorType) : BridgeEvent φ β → Option (CFloat × CFloat × CFloat)
  | .sensorData (.vec (some x) (some y) (some z)) type =>
    if type ∈ types then some (x, y, z) else none
  | _ => none

def accelerationReading : BridgeEvent φ β → Option (CFloat × CFloat × CFloat) :=
  vecReading [.accelerometer, .linearAccel, .gravity]

def compassReading : BridgeEvent φ β → Option (CFloat × CFloat × CFloat) :=
  vecReading [.magneticField]

def gyroReading : BridgeEvent φ β → Option (CFloat × CFloat × CFloat) := vecReading [.gyroscope]

def pressureReading : BridgeEvent φ β → Option CFloat
  | .sensorData (.press (some p)) .pressure => some p
  | _ => none

def batteryReading : BridgeEvent φ β → Option CFloat
  | .battery v => some v
  | _ => none

def usbReading : BridgeEvent φ β → Option CFloat
  | .usb v => some v
  | _ => none

/-- Whether the event is a reading of the kind with all its components valid. -/
def SensorKind.isReading : SensorKind → BridgeEvent φ β → Bool
  | .acceleration, e => (accelerationReading e).isSome
  | .compass, e => (compassReading e).isSome
  | .gyro, e => (gyroReading e).isSome
  | .pressure, e => (pressureReading e).isSome
  | .battery, e => (batteryReading e).isSome

/-! ## The package of a log -/

def isSendImuOnly : BridgeEvent φ β → Bool
  | .sendImuOnly _ _ => true
  | _ => false

/-- What came in: of each kind the latest reading. -/
structure Readings where
  acceleration : Option (CFloat × CFloat × CFloat)
  compass : Option (CFloat × CFloat × CFloat)
  gyro : Option (CFloat × CFloat × CFloat)
  pressure : Option CFloat
  battery : Option CFloat
  usb : Option CFloat

def Readings.received (r : Readings) : SensorKind → Bool
  | .acceleration => r.acceleration.isSome
  | .compass => r.compass.isSome
  | .gyro => r.gyro.isSome
  | .pressure => r.pressure.isSome
  | .battery => r.battery.isSome

/-- The latest readings of a log. -/
def latestReadings (log : List (BridgeEvent φ β)) : Readings where
  acceleration := latest accelerationReading log
  compass := latest compassReading log
  gyro := latest gyroReading log
  pressure := latest pressureReading log
  battery := latest batteryReading log
  usb := latest usbReading log

/-- `sensors_valid` with the bits of the kinds that were received. -/
def validBits (received : SensorKind → Bool) : BitVec 14 :=
  let bit (k : SensorKind) : BitVec 14 := bif received k then k.bit else 0
  bit .acceleration ||| bit .compass ||| bit .gyro ||| bit .pressure ||| bit .battery

/-- The sensor data of a package with these readings and nothing else, sent with the timestamp
`ts`.  The components of a vector are stored in the order `y`, `z`, `x`, or from the last for the
compass. -/
def Readings.sensors (undef : CFloat → ℤ) (ts : BitVec 64) (r : Readings) : RtdoabhSensorData :=
  let rounded (conv : ℚ) (x : CFloat) : BitVec 16 := toInt16 undef (x.scale conv).round
  { ts
    sensorsValid := validBits r.received
    hasUsbPower := r.usb.elim 0 fun v ↦ BitVec.ofBool ((CFloat.val 3).lt v)
    isAnchorData := 0
    gpsLat := 0
    gpsLong := 0
    batteryVoltage := r.battery.elim 0 fun v ↦
      BitVec.ofInt 8 ((v.scale (128 / 5)).convert undef (-2 ^ 7) (2 ^ 7 - 1))
    pressure := r.pressure.elim 0 fun p ↦ toInt16 undef (p.plus (-101300))
    compass := r.compass.elim (Vector.replicate 3 0) fun c ↦
      #v[toInt16 undef c.2.2, toInt16 undef c.2.1, toInt16 undef c.1]
    acceleration := r.acceleration.elim (Vector.replicate 3 0) fun a ↦
      #v[rounded 1000 a.2.1, rounded 1000 a.2.2, rounded 1000 a.1]
    gyro := r.gyro.elim (Vector.replicate 3 0) fun g ↦
      #v[rounded 10 g.2.1, rounded 10 g.2.2, rounded 10 g.1] }

/-! ## The bits -/

/-- One kind more. -/
theorem validBits_or (received received' : SensorKind → Bool) (k : SensorKind)
    (h : ∀ j, received' j = (received j || decide (k = j))) :
    validBits received' = validBits received ||| k.bit := by
  obtain rfl : received' = fun j ↦ received j || decide (k = j) := funext h
  simp only [validBits]
  generalize received .acceleration = a, received .compass = c, received .gyro = g,
    received .pressure = p, received .battery = b
  revert a c g p b
  cases k <;> decide

/-- No two kinds share a bit. -/
theorem validBits_and_bit (received : SensorKind → Bool) (k : SensorKind) :
    validBits received &&& k.bit ≠ 0 ↔ received k = true := by
  rw [validBits]
  generalize ha : received .acceleration = a, hc : received .compass = c, hg : received .gyro = g,
    hp : received .pressure = p, hb : received .battery = b
  cases k
  all_goals
    simp only [ha, hc, hg, hp, hb]
    clear ha hc hg hp hb
    revert a c g p b
    decide

/-! ## One call -/

/-- What a call does to the sensor data. -/
def absorb (undef : CFloat → ℤ) (d : RtdoabhSensorData) : BridgeEvent φ β → RtdoabhSensorData
  | .sensorData data type => rtdoaBackhaulSensorDataCb undef d data type
  | .battery v => rtdoaBackhaulBatteryCb undef d v
  | .usb v => rtdoaBackhaulUsbCb d v
  | _ => d

theorem bridgeStep_sensors [DecidableEq β] {D : Driver φ} {s t : Bridge N β}
    {e : BridgeEvent φ β} (h : bridgeStep D s e = some t) :
    t.gResultPkgImu.sensors =
      if isSendImuOnly e then .zero else absorb D.undef s.gResultPkgImu.sensors e := by
  cases e with
  | call e =>
    obtain ⟨st, -, rfl⟩ := Option.map_eq_some_iff.mp h
    rfl
  | send rtdoa dxTime err env =>
    obtain ⟨⟨t', ok⟩, hsend, rfl⟩ := Option.map_eq_some_iff.mp h
    obtain ⟨r, -, ⟨-, rfl, -⟩ | ⟨_, _, _, -, -, rfl, -⟩⟩ := bridgeSend_eq_some hsend
    · rfl
    · rfl
  | sendImuOnly ts env =>
    obtain ⟨⟨t', ok⟩, hsend, rfl⟩ := Option.map_eq_some_iff.mp h
    obtain ⟨st, -, rfl⟩ := rtdoaBackhaulSendImuOnly_eq_some hsend
    rfl
  | setTs | setA2a | sensorData | battery | usb =>
    cases h
    rfl

/-- The readings with those of one more call. -/
def Readings.add (r : Readings) (e : BridgeEvent φ β) : Readings where
  acceleration := (accelerationReading e).or r.acceleration
  compass := (compassReading e).or r.compass
  gyro := (gyroReading e).or r.gyro
  pressure := (pressureReading e).or r.pressure
  battery := (batteryReading e).or r.battery
  usb := (usbReading e).or r.usb

theorem latestReadings_concat (log : List (BridgeEvent φ β)) (e : BridgeEvent φ β) :
    latestReadings (log ++ [e]) = (latestReadings log).add e := by
  simp only [latestReadings, Readings.add, latest_concat]

section

variable (undef : CFloat → ℤ) (ts : BitVec 64) (r : Readings)

/-! A reading that is added is stored, and its bit set. -/

theorem sensors_acceleration (x y z : CFloat) :
    { r with acceleration := some (x, y, z) }.sensors undef ts =
      { r.sensors undef ts with
        acceleration := #v[toInt16 undef (y.scale 1000).round, toInt16 undef (z.scale 1000).round,
          toInt16 undef (x.scale 1000).round]
        sensorsValid := (r.sensors undef ts).sensorsValid ||| ACCELEROMETER_ENABLED } := by
  have hbits := validBits_or r.received { r with acceleration := some (x, y, z) }.received
    .acceleration fun j ↦ by cases j <;> simp [Readings.received]
  simp only [Readings.sensors, hbits, Option.elim_some, SensorKind.bit]

theorem sensors_compass (x y z : CFloat) :
    { r with compass := some (x, y, z) }.sensors undef ts =
      { r.sensors undef ts with
        compass := #v[toInt16 undef z, toInt16 undef y, toInt16 undef x]
        sensorsValid := (r.sensors undef ts).sensorsValid ||| COMPASS_ENABLED } := by
  have hbits := validBits_or r.received { r with compass := some (x, y, z) }.received
    .compass fun j ↦ by cases j <;> simp [Readings.received]
  simp only [Readings.sensors, hbits, Option.elim_some, SensorKind.bit]

theorem sensors_gyro (x y z : CFloat) :
    { r with gyro := some (x, y, z) }.sensors undef ts =
      { r.sensors undef ts with
        gyro := #v[toInt16 undef (y.scale 10).round, toInt16 undef (z.scale 10).round,
          toInt16 undef (x.scale 10).round]
        sensorsValid := (r.sensors undef ts).sensorsValid ||| GYRO_ENABLED } := by
  have hbits := validBits_or r.received { r with gyro := some (x, y, z) }.received
    .gyro fun j ↦ by cases j <;> simp [Readings.received]
  simp only [Readings.sensors, hbits, Option.elim_some, SensorKind.bit]

theorem sensors_pressure (p : CFloat) :
    { r with pressure := some p }.sensors undef ts =
      { r.sensors undef ts with
        pressure := toInt16 undef (p.plus (-101300))
        sensorsValid := (r.sensors undef ts).sensorsValid ||| PRESSURE_ENABLED } := by
  have hbits := validBits_or r.received { r with pressure := some p }.received
    .pressure fun j ↦ by cases j <;> simp [Readings.received]
  simp only [Readings.sensors, hbits, Option.elim_some, SensorKind.bit]

theorem sensors_battery (v : CFloat) :
    { r with battery := some v }.sensors undef ts =
      rtdoaBackhaulBatteryCb undef (r.sensors undef ts) v := by
  have hbits := validBits_or r.received { r with battery := some v }.received
    .battery fun j ↦ by cases j <;> simp [Readings.received]
  simp only [rtdoaBackhaulBatteryCb, Readings.sensors, hbits, Option.elim_some, SensorKind.bit]

theorem sensorDataCb_sensors (data : SensorData) (type : SensorType) :
    rtdoaBackhaulSensorDataCb undef (r.sensors undef ts) data type =
      (r.add (.sensorData data type : BridgeEvent φ β)).sensors undef ts := by
  rcases data with ⟨_ | x, _ | y, _ | z⟩ | ⟨_ | p⟩
  case vec.some.some.some =>
    cases type with
    | accelerometer | linearAccel | gravity => exact (sensors_acceleration undef ts r x y z).symm
    | magneticField => exact (sensors_compass undef ts r x y z).symm
    | gyroscope => exact (sensors_gyro undef ts r x y z).symm
    | none | pressure | other => rfl
  case press.some =>
    cases type with
    | pressure => exact (sensors_pressure undef ts r p).symm
    | _ => rfl
  -- a component is missing
  all_goals cases type <;> rfl

/-- **One call.**  The package takes up the readings of a call as the log does. -/
theorem absorb_sensors (e : BridgeEvent φ β) :
    absorb undef (r.sensors undef ts) e = (r.add e).sensors undef ts := by
  cases e with
  | sensorData data type => exact sensorDataCb_sensors undef ts r data type
  | battery v => exact (sensors_battery undef ts r v).symm
  | call | send | sendImuOnly | setTs | setA2a | usb => rfl

end

/-! ## A run -/

theorem foldl_absorb (undef : CFloat → ℤ) (log : List (BridgeEvent φ β)) :
    log.foldl (absorb undef) .zero = (latestReadings log).sensors undef 0 := by
  induction log using List.reverseRecOn with
  | nil =>
    change .zero = Readings.sensors undef 0 ⟨none, none, none, none, none, none⟩
    rfl
  | append_singleton log e ih =>
    rw [List.foldl_append, List.foldl_cons, List.foldl_nil, ih, absorb_sensors,
      latestReadings_concat]

/-- A kind was received when one of its readings is in the log. -/
theorem received_latestReadings (log : List (BridgeEvent φ β)) (k : SensorKind) :
    (latestReadings log).received k = true ↔ ∃ e ∈ log, k.isReading e = true := by
  cases k <;> exact isSome_latest_iff

variable [DecidableEq β]

/-- **What an IMU-only package carries.**  In every run, the package that
`rtdoa_backhaul_send_imu_only` builds has the timestamp of this call and, of what came in since
the call before, the latest valid reading of each kind; the bit of a kind is set exactly when
there is one, and all else is zero. -/
theorem sendImuOnly_sensors (D : Driver φ) (myShortAddress : BitVec 16) {s : Bridge N β}
    {es : List (BridgeEvent φ β)}
    (hrun : run (bridgeStep D) (Bridge.init N myShortAddress) es = some s) (ts : BitVec 64) :
    (imuPkg s.gResultPkgImu ts).sensors =
        (latestReadings (since isSendImuOnly es)).sensors D.undef ts ∧
      ∀ k : SensorKind, (imuPkg s.gResultPkgImu ts).sensors.sensorsValid &&& k.bit ≠ 0 ↔
        ∃ e ∈ since isSendImuOnly es, k.isReading e = true := by
  have hview : s.gResultPkgImu.sensors =
      (latestReadings (since isSendImuOnly es)).sensors D.undef 0 := by
    rw [← foldl_absorb]
    exact run_view_eq (fun u ↦ u.gResultPkgImu.sensors) (fun _ _ _ ↦ bridgeStep_sensors) rfl
      hrun
  have hpkg : (imuPkg s.gResultPkgImu ts).sensors =
      (latestReadings (since isSendImuOnly es)).sensors D.undef ts := by
    rw [imuPkg, hview]
    rfl
  refine ⟨hpkg, fun k ↦ ?_⟩
  rw [hpkg, ← received_latestReadings]
  exact validBits_and_bit _ k

/-- A reading of the gyroscope, kept over a round; the battery was in the package before. -/
theorem sendImuOnly_sensors_gyro :
    ∃ s, run (bridgeStep addressDriver) (Bridge.init 16 0x0001 : Bridge 16 ℕ)
        [.battery (.val 4), .sendImuOnly 5 sampleEnv,
          .sensorData (.vec (some (.val 1)) (some (.val 2)) (some (.val 3))) .gyroscope,
          .send ⟨0x0101, [0x0102]⟩ 0 false sampleEnv] = some s ∧
      (imuPkg s.gResultPkgImu 9).sensors.sensorsValid &&& GYRO_ENABLED ≠ 0 ∧
      (imuPkg s.gResultPkgImu 9).sensors.sensorsValid &&& BATTERY_LEVELS_ENABLED = 0 := by
  obtain ⟨s, hrun⟩ : ∃ s, run (bridgeStep addressDriver) (Bridge.init 16 0x0001 : Bridge 16 ℕ)
      [.battery (.val 4), .sendImuOnly 5 sampleEnv,
        .sensorData (.vec (some (.val 1)) (some (.val 2)) (some (.val 3))) .gyroscope,
        .send ⟨0x0101, [0x0102]⟩ 0 false sampleEnv] = some s := ⟨_, rfl⟩
  obtain ⟨-, hbits⟩ := sendImuOnly_sensors addressDriver 0x0001 hrun 9
  refine ⟨s, hrun, (hbits .gyro).mpr ⟨_, List.mem_cons_self, rfl⟩, ?_⟩
  by_contra hset
  obtain ⟨e, he, hreading⟩ := (hbits .battery).mp hset
  rcases List.mem_cons.mp he with rfl | he
  · cases hreading
  · cases List.mem_singleton.mp he
    cases hreading

end UwbApps.Backhaul
