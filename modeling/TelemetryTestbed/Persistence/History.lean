import Mathlib.Data.Int.ConditionallyCompleteOrder
import TelemetryTestbed.Lib.Selection
import TelemetryTestbed.Persistence.StateTable
import TelemetryTestbed.Persistence.StrBuf

/-!
# The history query

`db_reader_history_last_json` with its two loops: the rows of the result become a
text each, newest first, and the texts go into the reply from the last to the
first. What `sqlite3_step` answers and which allocations fail is given.

The loops are as the source has them: the first one counts the rows it stores and stops at a
step that is not a row, the second one appends a comma before every item but the first. The
results of some calls are not looked at, and a failure there goes on as the source goes on.
-/

namespace TelemetryTestbed.Persistence

open TelemetryTestbed.Lib Telemetry

/-! ## A row -/

/-- The arguments for the format of a sample. -/
def sampleArgs (row : StateRow) : List CArg :=
  let text (i : Nat) : CArg := .str ((columnText (row.column i)).getD [])
  let int (i : Nat) : CArg := .int (columnInt (row.column i))
  let int64 (i : Nat) : CArg := .longLong (columnInt64 (row.column i))
  let double (i : Nat) : CArg := .double (columnDouble (row.column i))
  [.double (tSec (columnInt64 (row.column 0))), int64 0, int 2, int64 3,
    text 1, text 4, text 11, int 15,
    double 5, double 6, double 7, double 8, double 9, double 10,
    double 12, double 13, double 14]

def motorsArgs (row : StateRow) : List CArg :=
  let text (i : Nat) : CArg := .str ((columnText (row.column i)).getD [])
  let int (i : Nat) : CArg := .int (columnInt (row.column i))
  let int64 (i : Nat) : CArg := .longLong (columnInt64 (row.column i))
  [text 16, int64 17, int 18, int 19, int 20, int 21,
    text 22, int64 23, int 24, int 25, int 26, int 27]

/-- `append_row_as_sample_json`, up to the first append that fails. -/
def appendRowTo (sb : StrBuf) (row : StateRow) (as : Answers) : Appended :=
  let sample := sbAppendf sb sampleFormat (sampleArgs row) as
  if !sample.ok then sample
  else
    let motors :=
      if row.hasMotors then sbAppendf sample.sb motorsFormat (motorsArgs row) sample.rest
      else sample
    if !motors.ok then motors else sbAppend motors.sb (ascii "\x7d") motors.rest

/-! ## The query -/

def StateRow.receivedAt (row : StateRow) : Int := (columnInt64 (row.column 0)).toInt

/-- The contents of `telemetry_state`: the rows by `id`, no two with the same one, each with the
time it was received at. -/
structure StateTable where
  rows : List (Int64 × StateRow)
  distinct : (rows.map Prod.fst).Nodup
  notNull : ∀ r ∈ rows, ∃ n, r.2.value .receivedAtNs = .integer n

/-- The result is one that `ORDER BY received_at_ns DESC LIMIT limit` may give. -/
def StateTable.Selects (table : StateTable) (limit : Nat) (result : List (Int64 × StateRow)) :
    Prop :=
  TopSelection (fun r => r.2.receivedAt) limit table.rows result

/-- What `sqlite3_step` answers: the next row, or an error. -/
inductive StepResult
  | row (r : StateRow)
  | failed

/-- The answers of `sqlite3_step` to come; behind the last one it answers `SQLITE_DONE`. -/
abbrev Cursor := List StepResult

/-- The first loop, with room for so many rows. It ends where a step is not a row, or a row
cannot be written. -/
def readRows : Nat → Cursor → Answers → List StrBuf × Answers
  | _, [], as => ([], as)
  | _, .failed :: _, as => ([], as)
  | 0, .row _ :: _, as => ([], as)
  | n + 1, .row r :: cursor, as =>
    let one := appendRowTo .empty r as
    if one.ok then
      (one.sb :: (readRows n cursor one.rest).1, (readRows n cursor one.rest).2)
    else ([], one.rest)

/-- The second loop, over the rows in the order it takes them. The results of `sb_append`
are not looked at. -/
def writeItems : List StrBuf → StrBuf → Answers → StrBuf × Answers
  | [], sb, as => (sb, as)
  | one :: rows, sb, as =>
    if one.cap = 0 then writeItems rows sb as
    else
      let item := sbAppend sb one.text as
      if rows.isEmpty then writeItems rows item.sb item.rest
      else
        let comma := sbAppend item.sb (ascii ",") item.rest
        writeItems rows comma.sb comma.rest

def historyHead : Bytes := ascii "\x7b\"type\":\"history\",\"items\":["

def historyTail : Bytes := ascii "]\x7d"

/-- The limit that is bound to the query. -/
def historyLimit (limit : Int32) : Nat :=
  let limit := if limit ≤ 0 then 300 else limit
  let limit := if 5000 < limit then 5000 else limit
  limit.toInt.toNat

/-- `db_reader_history_last_json`: what it stores through `out_json` and `out_len`, or its
error code. `prepared` is the result of `sqlite3_prepare_v2`. -/
def dbReaderHistoryLastJson (limit : Int32) (prepared : Bool) (cursor : Cursor) (as : Answers) :
    Except Int (Bytes × Nat) :=
  if !prepared then .error (-2)
  else
    let head := sbAppend .empty historyHead as
    if !head.ok then .error (-3)
    else if !head.rest.next.1 then .error (-4)
    else
      let read := readRows (historyLimit limit) cursor head.rest.next.2
      let written := writeItems read.1.reverse head.sb read.2
      let last := sbAppend written.1 historyTail written.2
      if last.ok then .ok (last.sb.text, last.sb.text.length) else .error (-5)

end TelemetryTestbed.Persistence
