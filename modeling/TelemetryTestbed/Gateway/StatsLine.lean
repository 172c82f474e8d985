import TelemetryTestbed.Gateway.Stats
import TelemetryTestbed.Lib.DoubleArith

/-!
# The printed statistics line

The round of `stats_thread` once more, with its variables as `double`s, and the line it
writes to `stderr`.

Every conversion, product and quotient rounds once, in the order of the source, and the values
are printed with the conversions of its format. It is the text that the analysis scripts read
back.
-/

namespace TelemetryTestbed.Gateway

open TelemetryTestbed.Lib

/-! ## The batch size -/

/-- `strtol(v, NULL, 10)` -/
def strtol (v : Bytes) : Int :=
  let v := v.dropWhile isspace
  let neg := v.head? = some 45
  let v := if neg ∨ v.head? = some 43 then v.drop 1 else v
  let n : Int := ofDigits10 (v.takeWhile isdigit)
  max (-2 ^ 63) (min (if neg then -n else n) (2 ^ 63 - 1))

/-- `env_int`, with what `getenv` answers. -/
def envInt (v : Option Bytes) (dflt minv maxv : Int) : Int :=
  match v with
  | none => dflt
  | some v =>
    if v = [] then dflt
    else
      let x := strtol v
      let x := if x < minv then minv else x
      if x > maxv then maxv else x

/-- `g->batch_size`, from the environment variable `GW_BATCH`. -/
def batchSize (gwBatch : Option Bytes) : Int := envInt gwBatch 50 1 4096

/-! ## A round of `stats_thread` -/

/-- The values of one line of `stats_thread`, in the order in which its format prints them. -/
structure StatsValues where
  upS : Double
  rxRate : Double
  dbRate : Double
  kbps : Double
  avgPayload : Double
  avgCommitMs : Double
  maxCommitMs : Double
  qLen : Nat
  qMax : Nat
  batchSize : Int

/-- `dt_s` -/
def dtDouble (last now : StatsSnapshot) : Double :=
  let dtS :=
    if last.monoNs < now.monoNs then (Double.ofInt (now.monoNs - last.monoNs)).div (.ofNat (10 ^ 9))
    else .ofNat 1
  if dtS.leZero then .ofNat 1 else dtS

/-- The counters never decrease, so the differences of unsigned integers are those of numbers. -/
def statsValues (startMonoNs : Int) (gwBatch : Option Bytes) (last now : StatsSnapshot) :
    StatsValues :=
  let dtS := dtDouble last now
  let dCommit := now.commitCount - last.commitCount
  { upS := (Double.ofInt (now.monoNs - startMonoNs)).div (.ofNat (10 ^ 9))
    rxRate := (Double.ofNat (now.rxMsgs - last.rxMsgs)).div dtS
    dbRate := (Double.ofNat (now.dbRows - last.dbRows)).div dtS
    kbps := (((Double.ofNat (now.rxBytes - last.rxBytes)).mul (.ofNat 8)).div (.ofNat 1000)).div dtS
    avgPayload :=
      if 0 < now.rxMsgs then (Double.ofNat now.rxBytes).div (.ofNat now.rxMsgs) else .ofNat 0
    avgCommitMs :=
      if 0 < dCommit then
        ((Double.ofInt (now.commitNsSum - last.commitNsSum)).div (.ofNat (10 ^ 6))).div
          (.ofNat dCommit)
      else .ofNat 0
    maxCommitMs := (Double.ofInt now.commitNsMax).div (.ofNat (10 ^ 6))
    qLen := now.qLen
    qMax := now.qMax
    batchSize := batchSize gwBatch }

/-- What `fprintf` writes. -/
def StatsValues.line (v : StatsValues) : Bytes :=
  ascii "GWSTAT up=" ++ v.upS.formatFixed 1 ++ ascii "s rx=" ++ v.rxRate.formatFixed 1 ++
    ascii " msg/s db=" ++ v.dbRate.formatFixed 1 ++ ascii " row/s kbps=" ++
    v.kbps.formatFixed 1 ++ ascii " avg_payload=" ++ v.avgPayload.formatFixed 1 ++
    ascii "B avg_commit=" ++ v.avgCommitMs.formatFixed 3 ++ ascii "ms max_commit=" ++
    v.maxCommitMs.formatFixed 3 ++ ascii "ms qlen=" ++ decimalNat v.qLen ++ ascii " qmax=" ++
    decimalNat v.qMax ++ ascii " batch=" ++ decimal v.batchSize ++ [10]

end TelemetryTestbed.Gateway
