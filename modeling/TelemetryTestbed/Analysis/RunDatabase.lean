import Mathlib.Data.Rat.Floor
import TelemetryTestbed.Analysis.Percentile
import TelemetryTestbed.Analysis.SeqMetrics

/-!
# The database of a run

`analyze_db` of `analyze_repeated_experiments.py` on the file of a path: the sizes of the
database and of the two files beside it, the number of rows, the time between the first and
the last of them, and the sequence numbers. The arithmetic is exact here; what rounding does
to the sequence metrics is the subject of `SeqMetrics`.

SQLite itself is a parameter. It enters at two places only: `sqlite3.connect` on the URI that
the script makes of the path, and the answers of the seven queries (`SqlAnswers`). Six of them
go through `sqlite_scalar`, which takes an error for a default; an error of the seventh is not
caught, and `analyze_db` ends with it. The two columns have integers or NULL, as the gateway
binds them: `float` of a text in `seq` would be another exception, which has no place here.

A path stands for the file it names. `Path` drops `.` and doubled slashes from the text, which
names the same file.
-/

namespace TelemetryTestbed.Analysis

open Lib

end TelemetryTestbed.Analysis
