import TelemetryTestbed.Lib.Printf
import TelemetryTestbed.Telemetry.Types

/-!
# The broadcast text

`telemetry_state_to_json_alloc`: the one format string and its arguments. Ids go into
it as they are.

The integers are printed with the conversions of their own types, and the two vectors and the
time as doubles with six decimals. The allocation is not part of the text: where it fails
there is no text at all, and that is decided by the caller of the model.
-/

namespace TelemetryTestbed.Telemetry

open TelemetryTestbed.Lib

/-- The promotion of a `float` argument. -/
def CFloat.toDouble (x : CFloat) : Double := .ofFloatBits x.bits

/-- `(double)received_at_ns / 1e9` -/
def tSec (receivedAtNs : Int64) : Double := (Double.ofInt receivedAtNs.toInt).divNat 1000000000

/-- `fmt` -/
def telemetryFormat : Bytes :=
  ascii "\x7b\"type\":\"telemetry\",\"t\":%.6f,\"t_ns\":%lld,\"seq\":%u,\"msg_ts_ns\":%llu," ++
  ascii "\"robot_id\":\"%s\",\"imu_id\":\"%s\",\"tilt_id\":\"%s\",\"tilt_status\":%u," ++
  ascii "\"accel\":\x7b\"x\":%.6f,\"y\":%.6f,\"z\":%.6f\x7d," ++
  ascii "\"gyro\":\x7b\"x\":%.6f,\"y\":%.6f,\"z\":%.6f\x7d," ++
  ascii "\"tilt\":\x7b\"x\":%.6f,\"y\":%.6f,\"z\":%.6f\x7d," ++
  ascii "\"motors\":\x7b" ++
  ascii "\"motor1\":\x7b\"id\":\"%s\",\"tics\":%u,\"rpm\":%d,\"temperature_c\":%d," ++
  ascii "\"voltage_power_stage_mv\":%d,\"current_power_stage_ma\":%d\x7d," ++
  ascii "\"motor2\":\x7b\"id\":\"%s\",\"tics\":%u,\"rpm\":%d,\"temperature_c\":%d," ++
  ascii "\"voltage_power_stage_mv\":%d,\"current_power_stage_ma\":%d\x7d" ++
  ascii "\x7d\x7d"

/-- The text of `telemetry_state_to_json_alloc`, where it can be allocated. -/
def telemetryStateToJsonAlloc (s : TelemetryState) : Option Bytes :=
  cformat telemetryFormat [
    .double (tSec s.receivedAtNs), .longLong s.receivedAtNs, .uint s.seq,
    .ulongLong s.msgTimestampNs,
    .str s.robotId.bytes, .str s.imuId.bytes, .str s.tiltId.bytes, .uint s.tiltStatus,
    .double s.accG.x.toDouble, .double s.accG.y.toDouble, .double s.accG.z.toDouble,
    .double s.gyroDps.x.toDouble, .double s.gyroDps.y.toDouble, .double s.gyroDps.z.toDouble,
    .double s.tiltDeg.x.toDouble, .double s.tiltDeg.y.toDouble, .double s.tiltDeg.z.toDouble,
    .str s.motor1.id.bytes, .uint s.motor1.tics, .int s.motor1.rpm, .int s.motor1.temperatureC,
    .int s.motor1.voltagePowerStageMv, .int s.motor1.currentPowerStageMa,
    .str s.motor2.id.bytes, .uint s.motor2.tics, .int s.motor2.rpm, .int s.motor2.temperatureC,
    .int s.motor2.voltagePowerStageMv, .int s.motor2.currentPowerStageMa]

end TelemetryTestbed.Telemetry
