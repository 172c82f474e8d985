import Mathlib.Data.List.DropRight
import TelemetryTestbed.Lib.Decimal
import TelemetryTestbed.Lib.Dict
import TelemetryTestbed.Lib.Regex

/-!
# Logs and databases of a sweep

`run_sweep.sh` names the files of a run after its batch size and its rate, and
`analyze_gwstats.py` finds the database of a log again by these names.

Each of the two numbers is read off a name by a pattern of its own, with letters in any case
and a word boundary or an underscore on both sides. The index has a database under its name
and under its name without a `run_` or `db_` in front; a log is looked up in the same way,
then without the one number or the other, and at last by names that contain each other.
-/

namespace TelemetryTestbed.Analysis

open Lib

/-! ## The names `run_sweep.sh` gives -/

/-- A word of `RATES` or `BATCHES`: decimal digits, leading zeros as they are. -/
structure Numeral where
  digits : Bytes
  ne_nil : digits ≠ []
  isdigit : ∀ d ∈ digits, isdigit d = true
deriving DecidableEq

def Numeral.value (n : Numeral) : Nat := ofDigits10 n.digits

/-- The batch and the rate that the name of a file is matched by. -/
structure Run where
  batch : Numeral
  rate : Numeral
deriving DecidableEq

/-- `b${B}_r${R}` -/
def Run.stem (run : Run) : Bytes := 98 :: run.batch.digits ++ 95 :: 114 :: run.rate.digits

/-- `$OUT_ROOT/db/run_b${B}_r${R}.db` -/
def dbPath (root : Bytes) (run : Run) : Bytes :=
  root ++ ascii "/db/run_" ++ run.stem ++ ascii ".db"

/-- `$OUT_ROOT/logs/gw_b${B}_r${R}.log` -/
def logPath (root : Bytes) (run : Run) : Bytes :=
  root ++ ascii "/logs/gw_" ++ run.stem ++ ascii ".log"

/-! ## What `analyze_gwstats.py` reads off a name -/

/-- `os.path.basename` -/
def basename (path : Bytes) : Bytes := path.rtakeWhile (· ≠ 47)

/-- `os.path.splitext(base)[0]`: dots in front begin no extension. -/
def splitextRoot (base : Bytes) : Bytes :=
  let front := (base.rdropWhile (· ≠ 46)).dropLast
  if front.all (· = 46) then base else front

def runIdFromName (path : Bytes) : Bytes := splitextRoot (basename path)

/-- `(?:\b|_)` -/
def edge : Regex := .alt .boundary (.byte (· = 95))

/-- `(?:short|long)(\d+)(?:\b|_)` behind an `edge`, letters in any case. -/
def numbered (short long : Bytes) : Regex :=
  .cat edge (.cat (.alt (.lit Regex.sameLetter short) (.lit Regex.sameLetter long))
    (.cat (.group [49] (.many Lib.isdigit)) edge))

def batchPattern : Regex := numbered (ascii "b") (ascii "batch")

def ratePattern : Regex := numbered (ascii "r") (ascii "rate")

/-- `int(m.group(1))`, if there is a match. -/
def inferNumber (pattern : Regex) (base : Bytes) : Option Nat :=
  ((pattern.search base).bind fun m => m.get? [49]).map ofDigits10

/-- The batch size and the rate. -/
def inferConfigFromName (path : Bytes) : Option Nat × Option Nat :=
  let base := basename path
  (inferNumber batchPattern base, inferNumber ratePattern base)

/-- `^(first|second)`, letters in any case. -/
def eitherPrefix (first second : Bytes) : Regex :=
  .cat .start (.group [49] (.alt (.lit Regex.sameLetter first) (.lit Regex.sameLetter second)))

/-! ## The index, and the database of a log -/

abbrev DbKey := Option Nat × Option Nat × Bytes

def indexDb (idx : Dict DbKey Bytes) (db : Bytes) : Dict DbKey Bytes :=
  let rid := runIdFromName db
  let (b, r) := inferConfigFromName db
  let idx := idx.set (b, r, rid) db
  let rid2 := (eitherPrefix (ascii "run_") (ascii "db_")).removeStart rid
  idx.set (b, r, rid2) db

def indexDbs (dbFiles : List Bytes) : Dict DbKey Bytes := dbFiles.foldl indexDb []

/-- The two numbers do not contradict each other. -/
def agrees (a b : Option Nat) : Bool := !(a.isSome && b.isSome && a != b)

/-- The last resort: an item whose name contains the log's, or the other way round. -/
def weakMatch (rid : Bytes) (b r : Option Nat) (item : DbKey × Bytes) : Bool :=
  item.1.2.2 ≠ [] && (item.1.2.2 <:+: rid || rid <:+: item.1.2.2) &&
    agrees b item.1.1 && agrees r item.1.2.1

def findMatchingDb (logPath : Bytes) (dbIndex : Dict DbKey Bytes) : Option Bytes :=
  let rid := runIdFromName logPath
  let (b, r) := inferConfigFromName logPath
  let rid2 := (eitherPrefix (ascii "gw_") (ascii "log_")).removeStart rid
  let keys := [(b, r, rid), (b, r, rid2), (none, r, rid), (none, r, rid2), (b, none, rid),
    (b, none, rid2)]
  match keys.findSome? dbIndex.get? with
  | some db => some db
  | none => (dbIndex.find? (weakMatch rid b r)).map Prod.snd

end TelemetryTestbed.Analysis
