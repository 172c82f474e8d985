import TelemetryTestbed.Lib.Script
import TelemetryTestbed.Persistence.StateTable

/-!
# The schema and its versions

The database as `db_ensure_schema` finds it: the version, the table with the columns
it happens to have, and the two indexes. `id` is left out, since no statement but
`CREATE TABLE` names it. `PRAGMA journal_mode`, `synchronous` and `foreign_keys`
change nothing that is modelled, but can fail.

A column is known by its name only; types and defaults are left out, but for the NULL that an
added column gives to the rows that are there. Every statement is a partial function on the
database, and the fates of a run say which are answered, which fail and where the process
dies.
-/

namespace TelemetryTestbed.Persistence

open TelemetryTestbed.Lib

/-! ## The database -/

def Column.name : Column → Bytes
  | .receivedAtNs => ascii "received_at_ns"
  | .topic => ascii "topic"
  | .robotId => ascii "robot_id"
  | .seq => ascii "seq"
  | .msgTimestampNs => ascii "msg_timestamp_ns"
  | .imuId => ascii "imu_id"
  | .accX => ascii "acc_x"
  | .accY => ascii "acc_y"
  | .accZ => ascii "acc_z"
  | .gyroX => ascii "gyro_x"
  | .gyroY => ascii "gyro_y"
  | .gyroZ => ascii "gyro_z"
  | .tiltId => ascii "tilt_id"
  | .tiltX => ascii "tilt_x"
  | .tiltY => ascii "tilt_y"
  | .tiltZ => ascii "tilt_z"
  | .tiltStatus => ascii "tilt_status"
  | .motor1Id => ascii "motor1_id"
  | .motor1Tics => ascii "motor1_tics"
  | .motor1Rpm => ascii "motor1_rpm"
  | .motor1TemperatureC => ascii "motor1_temperature_c"
  | .motor1VoltagePowerStageMv => ascii "motor1_voltage_power_stage_mv"
  | .motor1CurrentPowerStageMa => ascii "motor1_current_power_stage_ma"
  | .motor2Id => ascii "motor2_id"
  | .motor2Tics => ascii "motor2_tics"
  | .motor2Rpm => ascii "motor2_rpm"
  | .motor2TemperatureC => ascii "motor2_temperature_c"
  | .motor2VoltagePowerStageMv => ascii "motor2_voltage_power_stage_mv"
  | .motor2CurrentPowerStageMa => ascii "motor2_current_power_stage_ma"
  | .raw => ascii "raw"

def SqlType.name : SqlType → Bytes
  | .integer => ascii "INTEGER"
  | .real => ascii "REAL"
  | .text => ascii "TEXT"
  | .blob => ascii "BLOB"

/-- A table with some of the columns; the values of a row stand in their order. -/
structure Table where
  columns : List Column
  rows : List (List SqlValue)
  distinct : columns.Nodup
  filled : ∀ row ∈ rows, row.length = columns.length

/-- The two indexes that the schema of version 2 creates. -/
inductive Index
  | received
  | robotReceived
  deriving DecidableEq

def Index.columns : Index → List Column
  | .received => [.receivedAtNs]
  | .robotReceived => [.robotId, .receivedAtNs]

/-- What the migration reads and changes: the version, the table if there is one, and the
indexes, which are on columns that exist. -/
structure Db where
  userVersion : Int
  table : Option Table
  indexes : List Index
  indexed : ∀ i ∈ indexes, ∀ c ∈ i.columns, ∃ t, table = some t ∧ c ∈ t.columns

/-! ## The statements -/

/-- The columns of the `CREATE TABLE`, in its order. -/
def createdColumns : List Column :=
  [.receivedAtNs, .topic, .robotId, .seq, .msgTimestampNs, .imuId,
    .accX, .accY, .accZ, .gyroX, .gyroY, .gyroZ, .tiltId, .tiltX, .tiltY, .tiltZ, .tiltStatus,
    .motor1Id, .motor1Tics, .motor1Rpm, .motor1TemperatureC, .motor1VoltagePowerStageMv,
    .motor1CurrentPowerStageMa,
    .motor2Id, .motor2Tics, .motor2Rpm, .motor2TemperatureC, .motor2VoltagePowerStageMv,
    .motor2CurrentPowerStageMa,
    .raw]

def createdTable : Table where
  columns := createdColumns
  rows := []
  distinct := by decide
  filled row h := absurd h List.not_mem_nil

/-- `CREATE TABLE IF NOT EXISTS telemetry_state` -/
def createTable (s : Db) : Option Db :=
  match h : s.table with
  | some _ => some s
  | none => some { s with
      table := some createdTable
      indexed := fun i hi c hc => by
        obtain ⟨t, ht, -⟩ := s.indexed i hi c hc
        rw [h] at ht
        cases ht }

/-- `CREATE INDEX IF NOT EXISTS`: refused where a column of the index does not exist. -/
def createIndex (i : Index) (s : Db) : Option Db :=
  if i ∈ s.indexes then some s
  else
    match h : s.table with
    | none => none
    | some t =>
      if hc : ∀ c ∈ i.columns, c ∈ t.columns then
        some { s with
          indexes := s.indexes ++ [i]
          indexed := fun j hj c hcj => by
            rcases List.mem_append.mp hj with hj | hj
            · exact s.indexed j hj c hcj
            · rw [List.mem_singleton] at hj
              subst hj
              exact ⟨t, h, hc c hcj⟩ }
      else none

/-- The rows get `NULL` in the new column. -/
def Table.add (t : Table) (c : Column) (h : c ∉ t.columns) : Table where
  columns := t.columns ++ [c]
  rows := t.rows.map (· ++ [.null])
  distinct := List.nodup_append.mpr ⟨t.distinct, List.nodup_singleton c, by
    intro a ha b hb
    rw [List.mem_singleton.mp hb]
    exact fun he => h (he ▸ ha)⟩
  filled row hrow := by
    obtain ⟨old, hold, rfl⟩ := List.mem_map.mp hrow
    rw [List.length_append, List.length_append, t.filled old hold]
    rfl

/-- `ADD COLUMN`: refused where there is no table or the column exists. -/
def addColumn (c : Column) (s : Db) : Option Db :=
  match h : s.table with
  | none => none
  | some t =>
    if hc : c ∈ t.columns then none
    else some { s with
      table := some (t.add c hc)
      indexed := fun i hi d hd => by
        obtain ⟨t', ht', hmem⟩ := s.indexed i hi d hd
        rw [h] at ht'
        cases ht'
        exact ⟨_, rfl, List.mem_append_left _ hmem⟩ }

/-- The definition of a column in an `ALTER TABLE`. -/
def Column.definition (c : Column) : Bytes := c.name ++ ascii " " ++ c.type.name

/-- `ALTER TABLE telemetry_state ADD COLUMN` with the text of a definition. -/
def alterTable (colDef : Bytes) (s : Db) : Option Db :=
  match createdColumns.find? (fun c => c.definition = colDef) with
  | some c => addColumn c s
  | none => none

/-- `PRAGMA user_version=2` -/
def setUserVersion (s : Db) : Option Db := some { s with userVersion := 2 }

/-! ## The migration -/

/-- `column_exists`: a query that fails finds nothing. -/
def columnExists (col : Bytes) : Script Db Bool :=
  query (fun s => match s.table with
    | some t => t.columns.any (fun c => c.name = col)
    | none => false) false

/-- The bytes of a definition before the first space, as far as `col` holds them. -/
def columnName (colDef : Bytes) : Bytes := (colDef.takeWhile (· ≠ 0x20)).take 127

/-- `ensure_column` -/
def ensureColumn (colDef : Bytes) : Script Db Unit := do
  if ← columnExists (columnName colDef) then return () else perform (alterTable colDef)

/-- `db_apply_pragmas` -/
def dbApplyPragmas : Script Db Unit := do
  perform some
  perform some
  perform some

/-- `cols` of `db_migrate_v2` -/
def migrateCols : List Bytes :=
  [ascii "motor1_id TEXT",
    ascii "motor1_tics INTEGER",
    ascii "motor1_rpm INTEGER",
    ascii "motor1_temperature_c INTEGER",
    ascii "motor1_voltage_power_stage_mv INTEGER",
    ascii "motor1_current_power_stage_ma INTEGER",
    ascii "motor2_id TEXT",
    ascii "motor2_tics INTEGER",
    ascii "motor2_rpm INTEGER",
    ascii "motor2_temperature_c INTEGER",
    ascii "motor2_voltage_power_stage_mv INTEGER",
    ascii "motor2_current_power_stage_ma INTEGER"]

/-- `db_migrate_v2` -/
def dbMigrateV2 : Script Db Unit := do
  dbApplyPragmas
  perform createTable
  perform (createIndex .received)
  perform (createIndex .robotReceived)
  migrateCols.forM ensureColumn
  perform setUserVersion

/-- `cols` of `db_upgrade_v1_to_v2` -/
def upgradeCols : List Bytes :=
  [ascii "motor1_id TEXT",
    ascii "motor1_tics INTEGER",
    ascii "motor1_rpm INTEGER",
    ascii "motor1_temperature_c INTEGER",
    ascii "motor1_voltage_power_stage_mv INTEGER",
    ascii "motor1_current_power_stage_ma INTEGER",
    ascii "motor2_id TEXT",
    ascii "motor2_tics INTEGER",
    ascii "motor2_rpm INTEGER",
    ascii "motor2_temperature_c INTEGER",
    ascii "motor2_voltage_power_stage_mv INTEGER",
    ascii "motor2_current_power_stage_ma INTEGER"]

/-- `db_upgrade_v1_to_v2` -/
def dbUpgradeV1ToV2 : Script Db Unit := do
  dbApplyPragmas
  upgradeCols.forM ensureColumn
  perform setUserVersion

/-- `db_ensure_schema`: where the version is prepared but not read, it is taken for 0. -/
def dbEnsureSchema : Script Db Unit := do
  if ← ask then
    let userVersion ← query Db.userVersion 0
    if userVersion = 0 then dbMigrateV2
    else if userVersion = 1 then dbUpgradeV1ToV2
    else if userVersion = 2 then return ()
    else throw .error
  else throw .error

end TelemetryTestbed.Persistence
