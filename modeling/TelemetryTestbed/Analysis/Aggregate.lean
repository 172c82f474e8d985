import Mathlib.Data.List.Lex
import Mathlib.Data.Prod.Lex
import TelemetryTestbed.Analysis.Percentile
import TelemetryTestbed.Lib.Grouping
import TelemetryTestbed.Lib.SampleStatistics

/-!
# The aggregate over runs

`mean`, `stdev` and `aggregate` of `analyze_repeated_experiments.py`, over rational numbers.
`None` and `nan` are both `none`. The square root of `statistics.stdev` is a parameter.

In the source the summaries and the aggregate are dictionaries of floats and texts. Here the
configuration is a record and the metrics are a dictionary of numbers; the order in which the
columns are written is that of the source.
-/

namespace TelemetryTestbed.Analysis

open Lib

def mean (values : List (Option ℚ)) : Option ℚ :=
  let vals := values.filterMap id
  if vals ≠ [] then some (average vals) else none

def stdev (sqrt : ℚ → ℚ) (values : List (Option ℚ)) : Option ℚ :=
  let vals := values.filterMap id
  if 2 ≤ vals.length then some (sqrt (sampleVariance vals))
  else if vals.length = 1 then some 0
  else none

/-- A run summary, as far as `aggregate` reads it. The metrics are the numbers of the summary,
which its texts spell; a metric that is not there, and one that `ffloat` does not read, is
`none`. -/
structure RunRow where
  kind : Bytes
  rateHz : ℚ
  batch : Int
  metrics : Dict Bytes (Option ℚ)

/-- The key of a group: kind, rate and batch. -/
abbrev GroupKey := Bytes × ℚ × Int

def RunRow.key (r : RunRow) : GroupKey := (r.kind, r.rateHz, r.batch)

/-- Python compares the texts and the tuples element by element. -/
def sortKey (key : GroupKey) : List Nat ×ₗ ℚ ×ₗ Int :=
  toLex (key.1.map UInt8.toNat, toLex (key.2.1, key.2.2))

/-- The `metrics` of `aggregate`. -/
def metrics : List Bytes :=
  ["mean_rx_msg_s", "mean_db_row_s", "mean_rx_minus_db", "max_abs_rx_minus_db",
    "mean_payload_b", "mean_avg_commit_ms", "p95_interval_avg_commit_ms",
    "p99_interval_avg_commit_ms", "max_reported_commit_ms", "max_qlen", "max_qmax",
    "rows", "db_rate_from_rows", "expected_minus_rows_db_window", "bytes_per_sample_main",
    "bytes_per_sample_total", "seq_duplicate_rows", "seq_decrease_count",
    "seq_equal_adjacent_count"].map ascii

/-- The `vals` of one metric. -/
def metricVals (rows : List RunRow) (m : Bytes) : List (Option ℚ) :=
  rows.map fun r => (r.metrics.get? m).join

/-- What the loop body assigns for one metric. -/
def metricColumns (sqrt : ℚ → ℚ) (rows : List RunRow) (m : Bytes) : List (Bytes × Option ℚ) :=
  let vals := metricVals rows m
  [(m ++ ascii "_mean", mean vals),
    (m ++ ascii "_sd", stdev sqrt vals),
    (m ++ ascii "_min", (vals.filterMap id).min?),
    (m ++ ascii "_max", (vals.filterMap id).max?)]

/-- One row of the answer; `columns` are the keys that are made of the metrics. -/
structure AggregateRow where
  kind : Bytes
  rateHz : ℚ
  batch : Int
  nRuns : Nat
  columns : Dict Bytes (Option ℚ)

def AggregateRow.key (a : AggregateRow) : GroupKey := (a.kind, a.rateHz, a.batch)

/-- The body of the loop over the groups. -/
def aggregateGroup (sqrt : ℚ → ℚ) (group : GroupKey × List RunRow) : AggregateRow where
  kind := group.1.1
  rateHz := group.1.2.1
  batch := group.1.2.2
  nRuns := group.2.length
  columns := Dict.ofItems (metrics.flatMap (metricColumns sqrt group.2))

def aggregate (sqrt : ℚ → ℚ) (runRows : List RunRow) : List AggregateRow :=
  let groups := Dict.group RunRow.key runRows
  (groups.insertionSort fun x y => sortKey x.1 ≤ sortKey y.1).map (aggregateGroup sqrt)

end TelemetryTestbed.Analysis
