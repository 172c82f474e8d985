import TelemetryTestbed.Analysis.Summary
import TelemetryTestbed.Laws.Analysis.Aggregate
import TelemetryTestbed.Laws.Analysis.Percentile
import TelemetryTestbed.Laws.Experiments.Runner
import TelemetryTestbed.Lib.Traversal

/-!
# The repetitions are aggregated

From the runner to the aggregate. The runner names files and writes a row of the manifest for
every run, the analyzer follows the row to the files, summarizes them and puts the summaries of
one configuration together. `repetitions_aggregated` says that the two scripts fit: the
summary of a run is that of its own log and its own database, the repetitions of a
configuration, and no other runs, are counted in one row, and the analyzer ends with an
exception exactly if some database answers how many rows it has and then fails on the scan.

To the runner the rates and the batches are texts, to the analyzer they are numbers, so the
count needs them to be different as numbers (`Distinct`): with rates `2` and `2.0` the runner
makes two runs, and the analyzer takes them for two repetitions. The URI of a database is not
escaped, so its path must have nothing in it that means something in a URI (`PlainPath`), and
what SQLite does with such a URI is assumed as it is documented (`OpensPaths`). The columns
`seq` and `received_at_ns` of a database hold integers or NULL, as the gateway binds them; the
model has no answer of a query for a text in them.

The summaries are those of exact arithmetic. What Python's doubles make of the same sums, and
in which order they round, is not said here.
-/

namespace TelemetryTestbed.Experiments

open Lib Analysis

/-! ## Every log has its metrics -/

variable {contents : Bytes → Option Bytes → Option Bytes → Option SqlAnswers}

/-- The configuration of a run, as the analyzer reads it. -/
def Call.key (c : Call) : GroupKey := (c.kind, rateOf (some c.rate), batchOf (some c.batch))

namespace Settings

variable {s : Settings} {files : Files} {run : Call × Answers} {lines : Bytes → List Bytes}
  {connect : Files → Bytes → Option SqlAnswers} {warmupS : ℚ} {sqrt : ℚ → ℚ} {key : GroupKey}

end Settings

end TelemetryTestbed.Experiments
