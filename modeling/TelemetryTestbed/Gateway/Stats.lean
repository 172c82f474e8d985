import Mathlib.Data.Rat.Defs
import Mathlib.Algebra.Order.Ring.Nat
import TelemetryTestbed.Gateway.Writer

/-!
# The statistics line

One round of `stats_thread`: the counters it reads under the two mutexes, and the
values it prints, in exact arithmetic.

The differences of counters are over naturals, which agrees with the unsigned arithmetic of
the source as long as no counter goes back, and none does (the laws on `stats_thread` show
it). The printed line has doubles, and is the subject of `StatsLine`.
-/

namespace TelemetryTestbed.Gateway

/-- What one round of `stats_thread` reads: the clock, and the counters under their two locks.
-/
structure StatsSnapshot where
  monoNs : Int
  rxMsgs : Nat
  rxBytes : Nat
  dbRows : Nat
  commitCount : Nat
  commitNsSum : Int
  commitNsMax : Int
  qLen : Nat
  qMax : Nat

/-- The `last_` variables before the first round. -/
def StatsSnapshot.start (startMonoNs : Int) : StatsSnapshot :=
  ⟨startMonoNs, 0, 0, 0, 0, 0, 0, 0, 0⟩

/-- `dt_s` -/
def dtSeconds (last now : StatsSnapshot) : ℚ :=
  if last.monoNs < now.monoNs then (now.monoNs - last.monoNs : Int) / 1000000000 else 1

/-- The values of a `GWSTAT` line before they are rounded: the source computes them as
doubles and prints them with `%.1f` and `%.3f`. -/
structure GwStat where
  up : ℚ
  rx : ℚ
  db : ℚ
  kbps : ℚ
  avgPayload : ℚ
  avgCommit : ℚ
  maxCommit : ℚ
  qlen : Nat
  qmax : Nat
  batch : Int

/-- The counters never decrease, so the differences of unsigned integers are those of numbers. -/
def gwStat (startMonoNs batchSize : Int) (last now : StatsSnapshot) : GwStat where
  up := (now.monoNs - startMonoNs : Int) / 1000000000
  rx := (now.rxMsgs - last.rxMsgs : Nat) / dtSeconds last now
  db := (now.dbRows - last.dbRows : Nat) / dtSeconds last now
  kbps := (now.rxBytes - last.rxBytes : Nat) * 8 / 1000 / dtSeconds last now
  avgPayload := if 0 < now.rxMsgs then (now.rxBytes : ℚ) / now.rxMsgs else 0
  avgCommit :=
    let commits := now.commitCount - last.commitCount
    if 0 < commits then (now.commitNsSum - last.commitNsSum : Int) / 1000000 / (commits : ℚ) else 0
  maxCommit := now.commitNsMax / 1000000
  qlen := now.qLen
  qmax := now.qMax
  batch := batchSize

end TelemetryTestbed.Gateway
