import Mathlib.Algebra.Order.Ring.Nat
import Mathlib.Data.Fin.VecNotation
import TelemetryTestbed.Lib.Mutex
import TelemetryTestbed.Telemetry.Types

/-!
# The telemetry cache

`telemetry_cache_t` and its functions, one statement at a time between lock and
unlock. The locals of `telemetry_cache_get` are the variables it is called to fill.

A call is its list of statements, and a call for a motor that has no place in the cache
returns without the lock (`ignored`). The values are those of the C types, floats by their
bits, so copying them changes nothing.
-/

namespace TelemetryTestbed.Sim

open TelemetryTestbed.Lib TelemetryTestbed.Telemetry

/-! The arrays have three and two entries. -/

scoped instance neZero_three : NeZero 3 := ⟨Nat.succ_ne_zero 2⟩

scoped instance neZero_two : NeZero 2 := ⟨Nat.succ_ne_zero 1⟩

/-- `telemetry_cache_t`; entry 0 of the motor arrays is motor 1. -/
structure TelemetryCache where
  accG : Fin 3 → CFloat
  gyroDps : Fin 3 → CFloat
  tiltDeg : Fin 3 → CFloat
  tiltStatus : UInt32
  motorTics : Fin 2 → UInt32
  motorRpm : Fin 2 → Int32
  motorTempC : Fin 2 → Int32
  motorVoltageMv : Fin 2 → Int32
  motorCurrentMa : Fin 2 → Int32
  seq : UInt32

/-- `telemetry_cache_init`, and the variables of the publisher before they are filled. -/
def telemetryCacheInit : TelemetryCache where
  accG _ := ⟨0⟩
  gyroDps _ := ⟨0⟩
  tiltDeg _ := ⟨0⟩
  tiltStatus := 0
  motorTics _ := 0
  motorRpm _ := 0
  motorTempC _ := 0
  motorVoltageMv _ := 0
  motorCurrentMa _ := 0
  seq := 0

/-- An assignment to the cache. -/
def write (f : TelemetryCache → TelemetryCache) : Statement TelemetryCache TelemetryCache :=
  fun x => (f x.1, x.2)

/-- An assignment of something in the cache to a variable of the caller. -/
def read (f : TelemetryCache → TelemetryCache → TelemetryCache) :
    Statement TelemetryCache TelemetryCache :=
  fun x => (x.1, f x.1 x.2)

/-- What stands between the lock and the unlock of `telemetry_cache_set_imu`. -/
def telemetryCacheSetImu (axG ayG azG gxDps gyDps gzDps : CFloat) :
    List (Statement TelemetryCache TelemetryCache) :=
  [write fun c => { c with accG := Function.update c.accG 0 axG },
    write fun c => { c with accG := Function.update c.accG 1 ayG },
    write fun c => { c with accG := Function.update c.accG 2 azG },
    write fun c => { c with gyroDps := Function.update c.gyroDps 0 gxDps },
    write fun c => { c with gyroDps := Function.update c.gyroDps 1 gyDps },
    write fun c => { c with gyroDps := Function.update c.gyroDps 2 gzDps },
    write fun c => { c with seq := c.seq + 1 }]

def telemetryCacheSetTilt (txDeg tyDeg tzDeg : CFloat) (status : UInt32) :
    List (Statement TelemetryCache TelemetryCache) :=
  [write fun c => { c with tiltDeg := Function.update c.tiltDeg 0 txDeg },
    write fun c => { c with tiltDeg := Function.update c.tiltDeg 1 tyDeg },
    write fun c => { c with tiltDeg := Function.update c.tiltDeg 2 tzDeg },
    write fun c => { c with tiltStatus := status },
    write fun c => { c with seq := c.seq + 1 }]

/-- For `idx` the index is 1 or 2. -/
def telemetryCacheSetMotor (motorIndex : Int32) (tics : UInt32)
    (rpm temperatureC voltagePowerStageMv currentPowerStageMa : Int32) :
    List (Statement TelemetryCache TelemetryCache) :=
  let idx : Fin 2 := Fin.ofNat 2 (motorIndex - 1).toInt.toNat
  [write fun c => { c with motorTics := Function.update c.motorTics idx tics },
    write fun c => { c with motorRpm := Function.update c.motorRpm idx rpm },
    write fun c => { c with motorTempC := Function.update c.motorTempC idx temperatureC },
    write fun c => { c with
      motorVoltageMv := Function.update c.motorVoltageMv idx voltagePowerStageMv },
    write fun c => { c with
      motorCurrentMa := Function.update c.motorCurrentMa idx currentPowerStageMa },
    write fun c => { c with seq := c.seq + 1 }]

def telemetryCacheGet : List (Statement TelemetryCache TelemetryCache) :=
  [read fun c r => { r with accG := c.accG },
    read fun c r => { r with gyroDps := c.gyroDps },
    read fun c r => { r with tiltDeg := c.tiltDeg },
    read fun c r => { r with tiltStatus := c.tiltStatus },
    read fun c r => { r with motorTics := c.motorTics },
    read fun c r => { r with motorRpm := c.motorRpm },
    read fun c r => { r with motorTempC := c.motorTempC },
    read fun c r => { r with motorVoltageMv := c.motorVoltageMv },
    read fun c r => { r with motorCurrentMa := c.motorCurrentMa },
    read fun c r => { r with seq := c.seq }]

/-- A call of one of the setters or of `telemetry_cache_get`, with its arguments. -/
inductive CacheCall
  | setImu (axG ayG azG gxDps gyDps gzDps : CFloat)
  | setTilt (txDeg tyDeg tzDeg : CFloat) (status : UInt32)
  | setMotor (motorIndex : Int32) (tics : UInt32)
      (rpm temperatureC voltagePowerStageMv currentPowerStageMa : Int32)
  | get

/-- `telemetry_cache_set_motor` returns without the lock for another index than 1 and 2. -/
def CacheCall.ignored : CacheCall → Bool
  | .setMotor motorIndex .. => motorIndex ≠ 1 && motorIndex ≠ 2
  | _ => false

def CacheCall.code (call : CacheCall) : CriticalSection TelemetryCache TelemetryCache where
  locals := telemetryCacheInit
  body := match call with
    | .setImu ax ay az gx gy gz => telemetryCacheSetImu ax ay az gx gy gz
    | .setTilt tx ty tz status => telemetryCacheSetTilt tx ty tz status
    | .setMotor motorIndex tics rpm temperatureC voltage current =>
      telemetryCacheSetMotor motorIndex tics rpm temperatureC voltage current
    | .get => telemetryCacheGet

end TelemetryTestbed.Sim
