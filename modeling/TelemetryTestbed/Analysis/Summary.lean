import TelemetryTestbed.Analysis.Aggregate
import TelemetryTestbed.Analysis.Manifest
import TelemetryTestbed.Analysis.RunDatabase

/-!
# The summary of a run

`summarize_run` of `analyze_repeated_experiments.py`: the configuration that a row of the
manifest names, and every number that the summary has of the run, its log and its database.
The texts `run_id` and `rep`, which nothing computes with, and the rows of the single samples
are left out. The arithmetic is exact, with a square root as a parameter.

How the text of a log comes apart into lines is a parameter too, as is what `sqlite3.connect`
answers (`RunDatabase`). An exception of any part is one of the whole.
-/

namespace TelemetryTestbed.Analysis

open Lib

/-- `ffloat(x, 0.0)` -/
def rateOf (rate : Option Bytes) : ℚ := (ffloat rate).getD 0

/-- `fint(x, 0)` -/
def batchOf (batch : Option Bytes) : Int := fint batch

/-- `str` of `manifest_row.get("kind", "")` -/
def ManifestRow.kind (row : ManifestRow) : Bytes := (row.text? "kind").getD (ascii "None")

end TelemetryTestbed.Analysis
