import TelemetryTestbed.Lib.Resources
import TelemetryTestbed.Persistence.History

/-!
# What the history query takes from the heap

`db_reader_history_last_json` once more, as the sequence of what it does to its statement
and to its blocks. Each function stands beside the one that gives its result, and takes
the branches that one takes. A block that `realloc` moves stays that of its buffer, and
`free(NULL)` is nothing.

An event is the taking, the use or the release of one resource: the statement, the row table,
the text of a row by its number, the scratch buffer of a formatted append, the reply. Two rows
are two resources, so a row that is freed twice could not be mistaken for two rows freed once.
-/

namespace TelemetryTestbed.Persistence

open TelemetryTestbed.Lib

/-- What `db_reader_history_last_json` allocates: the statement, the array of rows, the text of
each, and the reply. -/
inductive HistoryResource
  /-- `sqlite3_stmt *st` -/
  | st
  /-- `rows` -/
  | rows
  /-- The buffer of the reply. -/
  | reply
  /-- `rows[i].json` -/
  | row (i : Nat)
  /-- `big` of `sb_appendf` -/
  | big
  deriving DecidableEq

abbrev HistoryEvents := List (Event HistoryResource)

/-- `sb_reserve` on the buffer of `r`. -/
def sbReserveEvents (r : HistoryResource) (sb : StrBuf) (extra : Nat) (as : Answers) :
    HistoryEvents :=
  if sb.text.length + extra + 1 ≤ sb.cap then []
  else if as.next.1 then if sb.cap = 0 then [.acquire r] else [.touch r]
  else []

/-- The copy behind the bytes of the buffer. -/
def sbCopyEvents (r : HistoryResource) (sb : StrBuf) (text : Bytes) (as : Answers) :
    HistoryEvents :=
  sbReserveEvents r sb text.length as ++ if (sbCopy sb text as).ok then [.touch r] else []

def sbAppendEvents (r : HistoryResource) (sb : StrBuf) (s : Bytes) (as : Answers) :
    HistoryEvents :=
  sbCopyEvents r sb (cstr s) as

def sbAppendfEvents (r : HistoryResource) (sb : StrBuf) (fmt : Bytes) (args : List CArg)
    (as : Answers) : HistoryEvents :=
  match cformat fmt args with
  | none => []
  | some text =>
    if text.length < 512 then sbCopyEvents r sb text as
    else if as.next.1 then
      [.acquire .big, .touch .big] ++ sbAppendEvents r sb text as.next.2 ++ [.release .big]
    else []

def sbFreeEvents (r : HistoryResource) (sb : StrBuf) : HistoryEvents :=
  if sb.cap = 0 then [] else [.release r]

/-- `append_row_as_sample_json`, which reads the columns first. -/
def appendRowEvents (r : HistoryResource) (sb : StrBuf) (row : StateRow) (as : Answers) :
    HistoryEvents :=
  let sample := sbAppendf sb sampleFormat (sampleArgs row) as
  [.touch .st] ++ sbAppendfEvents r sb sampleFormat (sampleArgs row) as ++
    if !sample.ok then []
    else
      let motors :=
        if row.hasMotors then sbAppendf sample.sb motorsFormat (motorsArgs row) sample.rest
        else sample
      (if row.hasMotors then
        sbAppendfEvents r sample.sb motorsFormat (motorsArgs row) sample.rest
      else []) ++
        if !motors.ok then [] else sbAppendEvents r motors.sb (ascii "\x7d") motors.rest

/-- The first loop at `rows[i]`, with room for so many rows more. -/
def readRowsEvents : Nat → Nat → Cursor → Answers → HistoryEvents
  | _, _, [], _ => [.touch .st]
  | _, _, .failed :: _, _ => [.touch .st]
  | _, 0, .row _ :: _, _ => [.touch .st]
  | i, n + 1, .row r :: cursor, as =>
    let one := appendRowTo .empty r as
    [.touch .st] ++ appendRowEvents (.row i) .empty r as ++
      if one.ok then [.touch .rows] ++ readRowsEvents (i + 1) n cursor one.rest
      else sbFreeEvents (.row i) one.sb

/-- The second loop, where as many rows are left as the list has. -/
def writeItemsEvents : List StrBuf → StrBuf → Answers → HistoryEvents
  | [], _, _ => []
  | one :: rows, sb, as =>
    let row : HistoryResource := .row rows.length
    [.touch .rows] ++
      if one.cap = 0 then writeItemsEvents rows sb as
      else
        let item := sbAppend sb one.text as
        [.touch row] ++ sbAppendEvents .reply sb one.text as ++
          if rows.isEmpty then [.release row] ++ writeItemsEvents rows item.sb item.rest
          else
            let comma := sbAppend item.sb (ascii ",") item.rest
            sbAppendEvents .reply item.sb (ascii ",") item.rest ++ [.release row] ++
              writeItemsEvents rows comma.sb comma.rest

/-- `db_reader_history_last_json` -/
def dbReaderHistoryEvents (limit : Int32) (prepared : Bool) (cursor : Cursor) (as : Answers) :
    HistoryEvents :=
  if !prepared then []
  else
    let head := sbAppend .empty historyHead as
    [.acquire .st] ++ sbAppendEvents .reply .empty historyHead as ++
      if !head.ok then [.release .st]
      else if !head.rest.next.1 then [.release .st] ++ sbFreeEvents .reply head.sb
      else
        let read := readRows (historyLimit limit) cursor head.rest.next.2
        let written := writeItems read.1.reverse head.sb read.2
        let last := sbAppend written.1 historyTail written.2
        [.acquire .rows] ++ readRowsEvents 0 (historyLimit limit) cursor head.rest.next.2 ++
          [.release .st] ++ writeItemsEvents read.1.reverse head.sb read.2 ++
          [.release .rows] ++ sbAppendEvents .reply written.1 historyTail written.2 ++
          if last.ok then [] else sbFreeEvents .reply last.sb

end TelemetryTestbed.Persistence
