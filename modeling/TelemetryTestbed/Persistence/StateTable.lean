import TelemetryTestbed.Telemetry.Json

/-!
# The table `telemetry_state`

The `INSERT` with its thirty bindings, the `SELECT` of the history with its
twenty-eight columns, and the text of a row. Bindings and columns meet by position,
as in the program. A row holds in every column `NULL` or a value of the declared
type, and the column functions are those of SQLite for such values.

What a column function answers on NULL, and on a number of another kind, is as SQLite
documents it. A real comes back as the double that was bound, which is an assumption of this
model: a file of SQLite gives 0.0 for -0.0.
-/

namespace TelemetryTestbed.Persistence

open TelemetryTestbed.Lib TelemetryTestbed.Telemetry

/-- The type that a column of the table is declared with. -/
inductive SqlType
  | integer
  | real
  | text
  | blob

/-- A value of SQLite, of one of its five storage classes. -/
inductive SqlValue
  | null
  | integer (n : Int64)
  | real (x : Double)
  | text (b : Bytes)
  | blob (b : Bytes)

def SqlValue.Fits : SqlValue → SqlType → Prop
  | .null, _ => True
  | .integer _, .integer => True
  | .real _, .real => True
  | .text _, .text => True
  | .blob _, .blob => True
  | _, _ => False

/-- The columns of `telemetry_state` behind `id`. -/
inductive Column
  | receivedAtNs
  | topic
  | robotId
  | seq
  | msgTimestampNs
  | imuId
  | accX
  | accY
  | accZ
  | gyroX
  | gyroY
  | gyroZ
  | tiltId
  | tiltX
  | tiltY
  | tiltZ
  | tiltStatus
  | motor1Id
  | motor1Tics
  | motor1Rpm
  | motor1TemperatureC
  | motor1VoltagePowerStageMv
  | motor1CurrentPowerStageMa
  | motor2Id
  | motor2Tics
  | motor2Rpm
  | motor2TemperatureC
  | motor2VoltagePowerStageMv
  | motor2CurrentPowerStageMa
  | raw
  deriving DecidableEq

/-- The declared type of a column. -/
def Column.type : Column → SqlType
  | .topic | .robotId | .imuId | .tiltId | .motor1Id | .motor2Id => .text
  | .accX | .accY | .accZ | .gyroX | .gyroY | .gyroZ | .tiltX | .tiltY | .tiltZ => .real
  | .raw => .blob
  | _ => .integer

/-- A row of `telemetry_state`: a value for each column, NULL or of the type that the column is
declared with. -/
structure StateRow where
  value : Column → SqlValue
  fits : ∀ c, (value c).Fits c.type

/-! ## The insert -/

def bindInt64 (n : Int64) : SqlValue := .integer n

def bindInt (n : Int32) : SqlValue := .integer n.toInt64

def bindText (b : Bytes) : SqlValue := .text (cstr b)

/-- SQLite stores a NaN as `NULL`. -/
def bindDouble : Double → SqlValue
  | .nan _ => .null
  | x => .real x

/-- The columns of the `INSERT`, in its order. -/
def insertColumns : List Column :=
  [.receivedAtNs, .topic, .robotId, .seq, .msgTimestampNs,
    .imuId, .accX, .accY, .accZ, .gyroX, .gyroY, .gyroZ,
    .tiltId, .tiltX, .tiltY, .tiltZ, .tiltStatus,
    .motor1Id, .motor1Tics, .motor1Rpm, .motor1TemperatureC, .motor1VoltagePowerStageMv,
    .motor1CurrentPowerStageMa,
    .motor2Id, .motor2Tics, .motor2Rpm, .motor2TemperatureC, .motor2VoltagePowerStageMv,
    .motor2CurrentPowerStageMa,
    .raw]

/-- The bindings of `db_writer_insert_state`, in its order. -/
def bindings (s : TelemetryState) : List SqlValue :=
  [bindInt64 s.receivedAtNs, bindText s.topic, bindText s.robotId.bytes, bindInt s.seq.toInt32,
    bindInt64 s.msgTimestampNs.toInt64,
    bindText s.imuId.bytes, bindDouble s.accG.x.toDouble, bindDouble s.accG.y.toDouble,
    bindDouble s.accG.z.toDouble, bindDouble s.gyroDps.x.toDouble,
    bindDouble s.gyroDps.y.toDouble, bindDouble s.gyroDps.z.toDouble,
    bindText s.tiltId.bytes, bindDouble s.tiltDeg.x.toDouble, bindDouble s.tiltDeg.y.toDouble,
    bindDouble s.tiltDeg.z.toDouble, bindInt s.tiltStatus.toInt32,
    bindText s.motor1.id.bytes, bindInt64 s.motor1.tics.toUInt64.toInt64, bindInt s.motor1.rpm,
    bindInt s.motor1.temperatureC, bindInt s.motor1.voltagePowerStageMv,
    bindInt s.motor1.currentPowerStageMa,
    bindText s.motor2.id.bytes, bindInt64 s.motor2.tics.toUInt64.toInt64, bindInt s.motor2.rpm,
    bindInt s.motor2.temperatureC, bindInt s.motor2.voltagePowerStageMv,
    bindInt s.motor2.currentPowerStageMa,
    match s.raw with
    | some raw => if raw = [] then .null else .blob raw
    | none => .null]

/-- What a column gets: the value bound at its position, or `NULL`. -/
def insertedValue (s : TelemetryState) (c : Column) : SqlValue :=
  ((insertColumns.zip (bindings s)).lookup c).getD .null

theorem fits_bindDouble (x : Double) : (bindDouble x).Fits .real := by
  cases x <;> exact True.intro

/-- The row of `db_writer_insert_state`. -/
def insertState (s : TelemetryState) : StateRow where
  value := insertedValue s
  fits c := by
    cases c with
    | accX | accY | accZ | gyroX | gyroY | gyroZ | tiltX | tiltY | tiltZ =>
      exact fits_bindDouble _
    | raw =>
      show SqlValue.Fits (match s.raw with
        | some raw => if raw = [] then .null else .blob raw
        | none => .null) .blob
      split
      · split <;> exact True.intro
      · exact True.intro
    | _ => exact True.intro

/-! ## The select -/

def columnInt64 : SqlValue → Int64
  | .integer n => n
  | _ => 0

/-- `sqlite3_column_int`: the low 32 bits. -/
def columnInt (v : SqlValue) : Int32 := (columnInt64 v).toInt32

def columnDouble : SqlValue → Double
  | .real x => x
  | _ => .fin false 0 0

/-- `sqlite3_column_text`; `none` stands for a null pointer. -/
def columnText : SqlValue → Option Bytes
  | .text b => some b
  | _ => none

def columnIsNull : SqlValue → Bool
  | .null => true
  | _ => false

/-- The columns of the `SELECT`, in its order. -/
def selectColumns : List Column :=
  [.receivedAtNs, .robotId, .seq, .msgTimestampNs, .imuId,
    .accX, .accY, .accZ, .gyroX, .gyroY, .gyroZ, .tiltId,
    .tiltX, .tiltY, .tiltZ, .tiltStatus,
    .motor1Id, .motor1Tics, .motor1Rpm, .motor1TemperatureC, .motor1VoltagePowerStageMv,
    .motor1CurrentPowerStageMa,
    .motor2Id, .motor2Tics, .motor2Rpm, .motor2TemperatureC, .motor2VoltagePowerStageMv,
    .motor2CurrentPowerStageMa]

/-- The `i`-th column of a row of the result. -/
def StateRow.column (row : StateRow) (i : Nat) : SqlValue :=
  match selectColumns[i]? with
  | some c => row.value c
  | none => .null

def sampleFormat : Bytes :=
  ascii "\x7b\"type\":\"telemetry\",\"t\":%.6f,\"t_ns\":%lld,\"seq\":%d,\"msg_ts_ns\":%lld," ++
  ascii "\"robot_id\":\"%s\",\"imu_id\":\"%s\",\"tilt_id\":\"%s\",\"tilt_status\":%d," ++
  ascii "\"accel\":\x7b\"x\":%.6f,\"y\":%.6f,\"z\":%.6f\x7d," ++
  ascii "\"gyro\":\x7b\"x\":%.6f,\"y\":%.6f,\"z\":%.6f\x7d," ++
  ascii "\"tilt\":\x7b\"x\":%.6f,\"y\":%.6f,\"z\":%.6f\x7d"

def motorsFormat : Bytes :=
  ascii ",\"motors\":\x7b" ++
  ascii "\"motor1\":\x7b\"id\":\"%s\",\"tics\":%lld,\"rpm\":%d,\"temperature_c\":%d," ++
  ascii "\"voltage_power_stage_mv\":%d,\"current_power_stage_ma\":%d\x7d," ++
  ascii "\"motor2\":\x7b\"id\":\"%s\",\"tics\":%lld,\"rpm\":%d,\"temperature_c\":%d," ++
  ascii "\"voltage_power_stage_mv\":%d,\"current_power_stage_ma\":%d\x7d" ++
  ascii "\x7d"

/-- `has_motors` -/
def StateRow.hasMotors (row : StateRow) : Bool :=
  !columnIsNull (row.column 16) || !columnIsNull (row.column 22)

/-- `append_row_as_sample_json` to an empty buffer, where it can be allocated. -/
def appendRowAsSampleJson (row : StateRow) : Option Bytes :=
  let text (i : Nat) : CArg := .str ((columnText (row.column i)).getD [])
  let int (i : Nat) : CArg := .int (columnInt (row.column i))
  let int64 (i : Nat) : CArg := .longLong (columnInt64 (row.column i))
  let double (i : Nat) : CArg := .double (columnDouble (row.column i))
  (cformat sampleFormat [
    .double (tSec (columnInt64 (row.column 0))), int64 0, int 2, int64 3,
    text 1, text 4, text 11, int 15,
    double 5, double 6, double 7, double 8, double 9, double 10,
    double 12, double 13, double 14]).bind fun sample =>
  if row.hasMotors then
    (cformat motorsFormat [
      text 16, int64 17, int 18, int 19, int 20, int 21,
      text 22, int64 23, int 24, int 25, int 26, int 27]).map fun motors =>
        sample ++ motors ++ ascii "\x7d"
  else some (sample ++ ascii "\x7d")

/-- The texts with commas between them. -/
def joinItems : List Bytes → Bytes
  | [] => []
  | [text] => text
  | text :: texts => text ++ ascii "," ++ joinItems texts

/-- The reply of `db_reader_history_last_json` for the rows of the result, which come
newest first and are written oldest first. -/
def historyJson (rows : List StateRow) : Option Bytes :=
  (rows.mapM appendRowAsSampleJson).map fun texts =>
    ascii "\x7b\"type\":\"history\",\"items\":[" ++ joinItems texts.reverse ++ ascii "]\x7d"

end TelemetryTestbed.Persistence
