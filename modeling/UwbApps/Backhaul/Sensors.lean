import UwbApps.Backhaul.Send

/-!
# The sensor values of a package

The callbacks that put sensor values into `g_result_pkg_imu`: one for the sensors of the sensor
manager, and two for the supply.  A value is stored as the whole number the package has room for,
and its bit of `sensors_valid` is set; a reading of which a component is missing is ignored.

A conversion to a type that cannot hold the value gives what the platform gives.
-/

set_option autoImplicit false

namespace UwbApps.Backhaul

/-- `sensor_type_t`. -/
inductive SensorType
  | none
  | accelerometer
  | linearAccel
  | gravity
  | magneticField
  | gyroscope
  | pressure
  /-- A type that the callback does not know. -/
  | other (bits : BitVec 32)
deriving DecidableEq, Repr

/-- What a sensor hands to its listener: three components or a pressure, each when it is valid. -/
inductive SensorData
  | vec (x y z : Option CFloat)
  | press (p : Option CFloat)

/-- A conversion to `int16_t`. -/
def toInt16 (undef : CFloat → ℤ) (x : CFloat) : BitVec 16 :=
  BitVec.ofInt 16 (x.convert undef (-2 ^ 15) (2 ^ 15 - 1))

/-- `rtdoa_backhaul_sensor_data_cb`, on the sensor data of `g_result_pkg_imu`. -/
def rtdoaBackhaulSensorDataCb (undef : CFloat → ℤ) (d : RtdoabhSensorData) (data : SensorData)
    (type : SensorType) : RtdoabhSensorData :=
  let rounded (conv : ℚ) (x : CFloat) : BitVec 16 := toInt16 undef (x.scale conv).round
  match type, data with
  | .accelerometer, .vec (some x) (some y) (some z)
  | .linearAccel, .vec (some x) (some y) (some z)
  | .gravity, .vec (some x) (some y) (some z) =>
    { d with
      acceleration := #v[rounded 1000 y, rounded 1000 z, rounded 1000 x]
      sensorsValid := d.sensorsValid ||| ACCELEROMETER_ENABLED }
  | .magneticField, .vec (some x) (some y) (some z) =>
    { d with
      compass := #v[toInt16 undef z, toInt16 undef y, toInt16 undef x]
      sensorsValid := d.sensorsValid ||| COMPASS_ENABLED }
  | .gyroscope, .vec (some x) (some y) (some z) =>
    { d with
      gyro := #v[rounded 10 y, rounded 10 z, rounded 10 x]
      sensorsValid := d.sensorsValid ||| GYRO_ENABLED }
  | .pressure, .press (some p) =>
    { d with
      pressure := toInt16 undef (p.plus (-101300))
      sensorsValid := d.sensorsValid ||| PRESSURE_ENABLED }
  | _, _ => d

/-- `rtdoa_backhaul_battery_cb`. -/
def rtdoaBackhaulBatteryCb (undef : CFloat → ℤ) (d : RtdoabhSensorData) (batteryVolt : CFloat) :
    RtdoabhSensorData :=
  { d with
    batteryVoltage :=
      BitVec.ofInt 8 ((batteryVolt.scale (128 / 5)).convert undef (-2 ^ 7) (2 ^ 7 - 1))
    sensorsValid := d.sensorsValid ||| BATTERY_LEVELS_ENABLED }

/-- `rtdoa_backhaul_usb_cb`. -/
def rtdoaBackhaulUsbCb (d : RtdoabhSensorData) (usbVolt : CFloat) : RtdoabhSensorData :=
  { d with hasUsbPower := BitVec.ofBool ((CFloat.val 3).lt usbVolt) }

end UwbApps.Backhaul
