import Mathlib.Data.List.Sort
import Mathlib.Data.Rat.Floor
import TelemetryTestbed.Analysis.GwStat

/-!
# Percentiles

`percentile` of `analyze_repeated_experiments.py` and the two that `summarize_run`
reports, over rational numbers. Of the two options of an answer the outer one is `none`
where Python raises an `IndexError` or a `KeyError`, the inner one where it is `nan`.

The index is computed with `int` and `math.ceil` of the position, as in the source, with
Python's rule for negative indexes; the laws show that none comes up for percentages from 0 to
100.
-/

namespace TelemetryTestbed.Analysis

open Lib

/-- `vals[i]`: a negative index counts from the end. -/
def pyGetItem {α : Type} (vals : List α) (i : Int) : Option α :=
  if 0 ≤ i then vals[i.toNat]?
  else if -(vals.length : Int) ≤ i then vals[(vals.length + i).toNat]?
  else none

/-- `int(k)`: towards zero. -/
def pyInt (k : ℚ) : Int := k.num.tdiv k.den

/-- The `vals` of `percentile`; `none` among the values is `None` or `nan`. -/
def sortedVals (values : List (Option ℚ)) : List ℚ := (values.filterMap id).insertionSort (· ≤ ·)

/-- The position `k` of the percentile among `n` values. -/
def position (n : Nat) (p : ℚ) : ℚ := ((n : ℚ) - 1) * p / 100

/-- What stands at the position `k`. -/
def valueBetween (vals : List ℚ) (k : ℚ) : Option ℚ :=
  let lo := ⌊k⌋
  let hi := ⌈k⌉
  if lo = hi then pyGetItem vals (pyInt k)
  else do
    let vlo ← pyGetItem vals lo
    let vhi ← pyGetItem vals hi
    return vlo * (hi - k) + vhi * (k - lo)

def percentile (values : List (Option ℚ)) (p : ℚ) : Option (Option ℚ) :=
  let vals := sortedVals values
  match vals with
  | [] => some none
  | [v] => some (some v)
  | _ => (valueBetween vals (position vals.length p)).map some

/-- `avg_commit_vals` -/
def avgCommitVals (samples : List (Dict Bytes (Option ℚ))) : Option (List (Option ℚ)) :=
  samples.mapM fun s => s.get? (ascii "avg_commit")

/-- `"p95_interval_avg_commit_ms"` of `summarize_run`. -/
def p95IntervalAvgCommitMs (samples : List (Dict Bytes (Option ℚ))) : Option (Option ℚ) :=
  (avgCommitVals samples).bind fun vals => percentile vals 95

/-- `"p99_interval_avg_commit_ms"` of `summarize_run`. -/
def p99IntervalAvgCommitMs (samples : List (Dict Bytes (Option ℚ))) : Option (Option ℚ) :=
  (avgCommitVals samples).bind fun vals => percentile vals 99

end TelemetryTestbed.Analysis
