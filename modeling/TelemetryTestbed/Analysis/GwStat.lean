import TelemetryTestbed.Analysis.RunFiles
import TelemetryTestbed.Lib.PyText

/-!
# Reading `GWSTAT` lines

The two decoders: the expression `GWSTAT_RE` of `analyze_repeated_experiments.py`, and
the tokens with units of `analyze_gwstats.py`. Numbers are rational; a missing one is
`nan` to the first and `None` to the second.

The expression is built as the source spells it, group by group, and the matcher of the
library finds what Python's would. The other decoder splits the line at its spaces, cuts each
word at its equals sign, and takes the unit off the value: milliseconds become seconds, the
prefixes of bytes are multiplied out, and with any other unit the number stays as it is.
-/

namespace TelemetryTestbed.Analysis

open Lib

/-- A text as it stands. -/
def exact (s : Bytes) : Regex := .lit (fun a b => a = b) s

/-- Expressions one behind the other. -/
def seq (rs : List Regex) : Regex := rs.foldr .cat .eps

/-! ## `analyze_repeated_experiments.py` -/

/-- `\s+` -/
def spaces : Regex := .many isPySpace

/-- `[0-9.]` -/
def isDecimalByte (b : UInt8) : Bool := isdigit b || b = 46

/-- `[0-9.]+` under a name. -/
def decimals (name : Bytes) : Regex := .group name (.many isDecimalByte)

/-- `[0-9]+` under a name. -/
def integers (name : Bytes) : Regex := .group name (.many isdigit)

def gwstatRe : Regex :=
  seq [exact (ascii "GWSTAT"), spaces,
    exact (ascii "up="), decimals (ascii "up"), exact (ascii "s"), spaces,
    exact (ascii "rx="), decimals (ascii "rx"), spaces, exact (ascii "msg/s"), spaces,
    exact (ascii "db="), decimals (ascii "db"), spaces, exact (ascii "row/s"), spaces,
    exact (ascii "kbps="), decimals (ascii "kbps"), spaces,
    exact (ascii "avg_payload="), decimals (ascii "payload"), exact (ascii "B"), spaces,
    exact (ascii "avg_commit="), decimals (ascii "avg_commit"), exact (ascii "ms"), spaces,
    exact (ascii "max_commit="), decimals (ascii "max_commit"), exact (ascii "ms"), spaces,
    exact (ascii "qlen="), integers (ascii "qlen"), spaces,
    exact (ascii "qmax="), integers (ascii "qmax"), spaces,
    exact (ascii "batch="), integers (ascii "batch")]

/-- The names of the groups, in their order. -/
def gwstatNames : List Bytes :=
  [ascii "up", ascii "rx", ascii "db", ascii "kbps", ascii "payload", ascii "avg_commit",
    ascii "max_commit", ascii "qlen", ascii "qmax", ascii "batch"]

/-- `ffloat`; `none` is `nan`. -/
def ffloat (x : Option Bytes) : Option ℚ := x.bind pyFloat

/-- `fint`: `int` cuts the decimals off. -/
def fint (x : Option Bytes) : Int := ((x.bind pyFloat).map fun q => q.num.tdiv q.den).getD 0

/-- The sample of a line that matches. -/
def gwstatSample (m : Regex.Captures) : Dict Bytes (Option ℚ) :=
  let d : Dict Bytes (Option ℚ) := gwstatNames.map fun k => (k, ffloat (m.get? k))
  let d := Dict.set d (ascii "qlen") (some (fint (m.get? (ascii "qlen")) : ℚ))
  let d := Dict.set d (ascii "qmax") (some (fint (m.get? (ascii "qmax")) : ℚ))
  Dict.set d (ascii "batch") (some (fint (m.get? (ascii "batch")) : ℚ))

/-- `d.get("up", 0.0) >= warmup_s` -/
def isWarm (warmupS : ℚ) (d : Dict Bytes (Option ℚ)) : Bool :=
  ((d.get? (ascii "up")).getD (some 0)).any fun up => warmupS ≤ up

/-- `parse_gwstat_log`, on the lines of the file. -/
def parseGwstatLog (lines : List Bytes) (warmupS : ℚ) : List (Dict Bytes (Option ℚ)) :=
  lines.filterMap fun line =>
    (gwstatRe.search line).bind fun m =>
      let d := gwstatSample m
      if isWarm warmupS d then some d else none

/-! ## `analyze_gwstats.py` -/

/-- `[A-Za-z/]` -/
def isUnitByte (b : UInt8) : Bool := (65 ≤ b && b ≤ 90) || (97 ≤ b && b ≤ 122) || b = 47

/-- `^([+-]?\d+(?:\.\d+)?)([A-Za-z/]+)?$` -/
def numUnitRe : Regex :=
  seq [.start,
    .group [49] (seq [.optional (.byte fun b => b = 43 || b = 45), .many isdigit,
      .optional (seq [.byte fun b => b = 46, .many isdigit])]),
    .optional (.group [50] (.many isUnitByte)), .stop]

/-- The value in the unit it is kept in. -/
def normalizeUnit (unit : Bytes) (val : ℚ) : ℚ :=
  let unitL := unit.map tolower
  if unitL = ascii "s" then val
  else if unitL = ascii "ms" then val / 1000
  else if unit = ascii "B" then val
  else if unit.map toupper = ascii "KB" then val * 1024
  else if unit.map toupper = ascii "MB" then val * 1024 * 1024
  else val

def parseNumWithUnit (s : Bytes) : Option ℚ :=
  (numUnitRe.matchStart (strip isPySpace s)).bind fun m =>
    ((m.get? [49]).bind pyFloat).map fun val =>
      normalizeUnit (strip isPySpace ((m.get? [50]).getD [])) val

/-- The key and the number of a token, if it has both. -/
def parseToken (tok : Bytes) : Option (Bytes × ℚ) :=
  if (61 : UInt8) ∉ tok then none
  else
    let k := strip isPySpace (tok.takeWhile (· ≠ 61))
    let v := strip (· = 44) (strip isPySpace ((tok.dropWhile (· ≠ 61)).drop 1))
    (parseNumWithUnit v).map fun parsed => (k, parsed)

def parseGwstatLine (line : Bytes) : Dict Bytes ℚ :=
  (words (strip isPySpace line)).foldl (fun fields tok =>
    match parseToken tok with
    | none => fields
    | some (k, parsed) => fields.set k parsed) []

/-- `GwSample`: one line of a log, with `None` for what the line did not have. -/
structure GwSample where
  runId : Bytes
  logFile : Bytes
  upS : ℚ
  rxMsgS : Option ℚ
  dbRowS : Option ℚ
  kbps : Option ℚ
  avgPayloadB : Option ℚ
  avgCommitMs : Option ℚ
  maxCommitMs : Option ℚ
  qlen : Option ℚ
  qmax : Option ℚ
  batch : Option Int
  stateRateHz : Option Nat

/-- What the loop over the lines of a log appends for the fields of one. -/
def gwSample (logFile : Bytes) (samples : List GwSample) (fields : Dict Bytes ℚ) : GwSample :=
  let (bName, rName) := inferConfigFromName logFile
  { runId := runIdFromName logFile
    logFile := logFile
    upS := (fields.get? (ascii "up")).getD samples.length
    rxMsgS := fields.get? (ascii "rx")
    dbRowS := fields.get? (ascii "db")
    kbps := fields.get? (ascii "kbps")
    avgPayloadB := fields.get? (ascii "avg_payload")
    avgCommitMs := (fields.get? (ascii "avg_commit")).map (· * 1000)
    maxCommitMs := (fields.get? (ascii "max_commit")).map (· * 1000)
    qlen := fields.get? (ascii "qlen")
    qmax := fields.get? (ascii "qmax")
    batch := ((fields.get? (ascii "batch")).map fun q => q.num.tdiv q.den).or
      (bName.map fun b => (b : Int))
    stateRateHz := rName }

/-- The samples of a log in `main`. -/
def readSamples (logFile : Bytes) (lines : List Bytes) : List GwSample :=
  lines.foldl (fun samples line =>
    if (ascii "GWSTAT").isPrefixOf line then
      samples ++ [gwSample logFile samples (parseGwstatLine line)]
    else samples) []

end TelemetryTestbed.Analysis
