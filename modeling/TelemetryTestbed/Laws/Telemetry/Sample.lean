import TelemetryTestbed.Lib.JsonDoc
import TelemetryTestbed.Persistence.StateTable

/-!
# What a sample text says

The broadcast and the replay write the same document with format strings of their
own. `SampleFields` are the fields of it, `SampleFields.doc` the document, and each
emitter is the pasting of the document of its own fields
(`telemetryStateToJsonAlloc_eq`, `appendRowAsSampleJson_eq`). What holds of both
texts is proved of the document.

The two format strings differ in their conversions only, so they are cut into their pieces by
computation, once each, and the filling of the pieces is compared with the document field by
field. A row that holds NULL has the default of its column function in the text.
-/

namespace TelemetryTestbed.Telemetry

open TelemetryTestbed.Lib Lib.Json

/-! ## The document -/

/-- Three numbers of a vector, as the client reads them. -/
structure Triple where
  x : Double
  y : Double
  z : Double

/-- What the client reads of one motor. -/
structure MotorSample where
  id : Bytes
  tics : Int
  rpm : Int
  temperatureC : Int
  voltagePowerStageMv : Int
  currentPowerStageMa : Int

/-- What the client reads of a sample: the meaning of its JSON text, with the motors where it
has them. -/
structure SampleFields where
  tNs : Int64
  seq : Int
  msgTsNs : Int
  robotId : Bytes
  imuId : Bytes
  tiltId : Bytes
  tiltStatus : Int
  accel : Triple
  gyro : Triple
  tilt : Triple
  motors : Option (MotorSample × MotorSample)

def Triple.doc (v : Triple) : Doc :=
  .obj [(ascii "x", .raw v.x.format6), (ascii "y", .raw v.y.format6),
    (ascii "z", .raw v.z.format6)]

def MotorSample.doc (m : MotorSample) : Doc :=
  .obj [(ascii "id", .str m.id), (ascii "tics", .int m.tics), (ascii "rpm", .int m.rpm),
    (ascii "temperature_c", .int m.temperatureC),
    (ascii "voltage_power_stage_mv", .int m.voltagePowerStageMv),
    (ascii "current_power_stage_ma", .int m.currentPowerStageMa)]

/-- The optional section. -/
def motorMembers : Option (MotorSample × MotorSample) → List (Bytes × Doc)
  | some (m1, m2) =>
    [(ascii "motors", .obj [(ascii "motor1", m1.doc), (ascii "motor2", m2.doc)])]
  | none => []

/-- The members of a sample, in the order of the format strings. -/
def SampleFields.members (f : SampleFields) : List (Bytes × Doc) :=
  (ascii "type", .raw (ascii "\"telemetry\"")) ::
    (ascii "t", .raw (tSec f.tNs).format6) :: (ascii "t_ns", .int f.tNs.toInt) ::
    (ascii "seq", .int f.seq) :: (ascii "msg_ts_ns", .int f.msgTsNs) ::
    (ascii "robot_id", .str f.robotId) :: (ascii "imu_id", .str f.imuId) ::
    (ascii "tilt_id", .str f.tiltId) :: (ascii "tilt_status", .int f.tiltStatus) ::
    (ascii "accel", f.accel.doc) :: (ascii "gyro", f.gyro.doc) :: (ascii "tilt", f.tilt.doc) ::
    motorMembers f.motors

def SampleFields.doc (f : SampleFields) : Doc := .obj f.members

/-- The text of a sample. -/
def SampleFields.text (f : SampleFields) : Bytes := f.doc.paste []

/-! ## The broadcast -/

def Vec3.triple (v : Vec3) : Triple := ⟨v.x.toDouble, v.y.toDouble, v.z.toDouble⟩

def MotorFields.sample (m : MotorFields) : MotorSample where
  id := m.id.bytes
  tics := m.tics.toNat
  rpm := m.rpm.toInt
  temperatureC := m.temperatureC.toInt
  voltagePowerStageMv := m.voltagePowerStageMv.toInt
  currentPowerStageMa := m.currentPowerStageMa.toInt

/-- The fields of the broadcast. -/
def TelemetryState.fields (s : TelemetryState) : SampleFields where
  tNs := s.receivedAtNs
  seq := s.seq.toNat
  msgTsNs := s.msgTimestampNs.toNat
  robotId := s.robotId.bytes
  imuId := s.imuId.bytes
  tiltId := s.tiltId.bytes
  tiltStatus := s.tiltStatus.toNat
  accel := s.accG.triple
  gyro := s.gyroDps.triple
  tilt := s.tiltDeg.triple
  motors := some (s.motor1.sample, s.motor2.sample)

/-- The pieces of the format strings up to the motors; `cu` and `cllu` are the
conversions of the unsigned fields. -/
def samplePieces (cu cllu : Conversion) (rest : List FormatPiece) : List FormatPiece :=
  .lit (ascii "\x7b\"type\":\"telemetry\",\"t\":") :: .conv .f6 ::
  .lit (ascii ",\"t_ns\":") :: .conv .lld :: .lit (ascii ",\"seq\":") :: .conv cu ::
  .lit (ascii ",\"msg_ts_ns\":") :: .conv cllu ::
  .lit (ascii ",\"robot_id\":\"") :: .conv .s :: .lit (ascii "\",\"imu_id\":\"") :: .conv .s ::
  .lit (ascii "\",\"tilt_id\":\"") :: .conv .s ::
  .lit (ascii "\",\"tilt_status\":") :: .conv cu ::
  .lit (ascii ",\"accel\":\x7b\"x\":") :: .conv .f6 :: .lit (ascii ",\"y\":") :: .conv .f6 ::
  .lit (ascii ",\"z\":") :: .conv .f6 ::
  .lit (ascii "\x7d,\"gyro\":\x7b\"x\":") :: .conv .f6 :: .lit (ascii ",\"y\":") :: .conv .f6 ::
  .lit (ascii ",\"z\":") :: .conv .f6 ::
  .lit (ascii "\x7d,\"tilt\":\x7b\"x\":") :: .conv .f6 :: .lit (ascii ",\"y\":") :: .conv .f6 ::
  .lit (ascii ",\"z\":") :: .conv .f6 :: rest

/-- The pieces of one motor behind its brace. -/
def motorPieces (cu : Conversion) (rest : List FormatPiece) : List FormatPiece :=
  .conv .s :: .lit (ascii "\",\"tics\":") :: .conv cu :: .lit (ascii ",\"rpm\":") :: .conv .d ::
  .lit (ascii ",\"temperature_c\":") :: .conv .d ::
  .lit (ascii ",\"voltage_power_stage_mv\":") :: .conv .d ::
  .lit (ascii ",\"current_power_stage_ma\":") :: .conv .d :: rest

theorem formatPieces_telemetryFormat :
    formatPieces telemetryFormat.length telemetryFormat = some (samplePieces .u .llu
      (.lit (ascii "\x7d,\"motors\":\x7b\"motor1\":\x7b\"id\":\"") :: motorPieces .u
        (.lit (ascii "\x7d,\"motor2\":\x7b\"id\":\"") :: motorPieces .u
          [.lit (ascii "\x7d\x7d\x7d")]))) := by
  decide +kernel

set_option maxRecDepth 20000 in
/-- The broadcast is the pasting of its document. -/
theorem telemetryStateToJsonAlloc_eq (s : TelemetryState) :
    telemetryStateToJsonAlloc s = some s.fields.text := by
  rw [telemetryStateToJsonAlloc, cformat, formatPieces_telemetryFormat, Option.bind_some]
  simp only [samplePieces, motorPieces, fillPieces, Conversion.show, Option.bind_some,
    Option.map_some, cstr_eq_self s.robotId.noNul, cstr_eq_self s.imuId.noNul,
    cstr_eq_self s.tiltId.noNul, cstr_eq_self s.motor1.id.noNul, cstr_eq_self s.motor2.id.noNul]
  rfl

end TelemetryTestbed.Telemetry

namespace TelemetryTestbed.Persistence

open TelemetryTestbed.Lib TelemetryTestbed.Telemetry

/-! ## The replay -/

/-- The text a column is printed as. -/
def StateRow.text (row : StateRow) (i : Nat) : Bytes := cstr ((columnText (row.column i)).getD [])

def StateRow.int (row : StateRow) (i : Nat) : Int := (columnInt (row.column i)).toInt

def StateRow.int64 (row : StateRow) (i : Nat) : Int := (columnInt64 (row.column i)).toInt

def StateRow.triple (row : StateRow) (i : Nat) : Triple :=
  ⟨columnDouble (row.column i), columnDouble (row.column (i + 1)),
    columnDouble (row.column (i + 2))⟩

def StateRow.motor (row : StateRow) (i : Nat) : MotorSample where
  id := row.text i
  tics := row.int64 (i + 1)
  rpm := row.int (i + 2)
  temperatureC := row.int (i + 3)
  voltagePowerStageMv := row.int (i + 4)
  currentPowerStageMa := row.int (i + 5)

/-- The fields of the text of a row. -/
def StateRow.fields (row : StateRow) : SampleFields where
  tNs := columnInt64 (row.column 0)
  seq := row.int 2
  msgTsNs := row.int64 3
  robotId := row.text 1
  imuId := row.text 4
  tiltId := row.text 11
  tiltStatus := row.int 15
  accel := row.triple 5
  gyro := row.triple 8
  tilt := row.triple 12
  motors := if row.hasMotors then some (row.motor 16, row.motor 22) else none

theorem formatPieces_sampleFormat :
    formatPieces sampleFormat.length sampleFormat =
      some (samplePieces .d .lld [.lit (ascii "\x7d")]) := by
  decide +kernel

theorem formatPieces_motorsFormat :
    formatPieces motorsFormat.length motorsFormat =
      some (.lit (ascii ",\"motors\":\x7b\"motor1\":\x7b\"id\":\"") :: motorPieces .lld
        (.lit (ascii "\x7d,\"motor2\":\x7b\"id\":\"") :: motorPieces .lld
          [.lit (ascii "\x7d\x7d")])) := by
  decide +kernel

set_option maxRecDepth 20000 in
/-- The text of a row is the pasting of its document. -/
theorem appendRowAsSampleJson_eq (row : StateRow) :
    appendRowAsSampleJson row = some row.fields.text := by
  unfold appendRowAsSampleJson cformat
  rw [formatPieces_sampleFormat, formatPieces_motorsFormat]
  simp only [Option.bind_some, samplePieces, motorPieces, fillPieces, Conversion.show,
    Option.map_some]
  cases hmotors : row.hasMotors with
  | true =>
    have hfields : row.fields.motors = some (row.motor 16, row.motor 22) := by
      rw [StateRow.fields, hmotors]
      rfl
    rw [if_pos rfl]
    simp only [List.append_assoc, List.nil_append]
    rw [SampleFields.text, SampleFields.doc, SampleFields.members, hfields]
    rfl
  | false =>
    have hfields : row.fields.motors = none := by
      rw [StateRow.fields, hmotors]
      rfl
    rw [if_neg Bool.false_ne_true]
    simp only [List.append_assoc, List.nil_append]
    rw [SampleFields.text, SampleFields.doc, SampleFields.members, hfields]
    rfl

end TelemetryTestbed.Persistence
