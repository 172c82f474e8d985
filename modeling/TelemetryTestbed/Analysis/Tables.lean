import TelemetryTestbed.Analysis.Manifest

/-!
# The tables of the analyzer

`write_csv` of `analyze_repeated_experiments.py`. The values are the texts `str` makes of
them, which is what the writer does first.

The header has the keys of all rows in the order in which they come first, unless the caller
gives one. Quoting is that of the `csv` module with its default dialect: only where a field
has a separator, a quote or a line break in it.
-/

namespace TelemetryTestbed.Analysis

open Lib

/-- A row before it is written. -/
abbrev TableRow := Dict Bytes Bytes

/-- The keys of one row that are not there yet. -/
def addKeys (keys : List Bytes) (row : TableRow) : List Bytes :=
  row.foldl (fun keys item => if item.1 ∈ keys then keys else keys ++ [item.1]) keys

/-- The keys of all rows, in the order they come up. -/
def columns (rows : List TableRow) : List Bytes := rows.foldl addKeys []

/-- `DictWriter._dict_to_list`; `none` is the `ValueError`. -/
def dictToList (fieldnames : List Bytes) (row : TableRow) : Option (List Bytes) :=
  if row.all fun item => item.1 ∈ fieldnames then
    some (fieldnames.map fun key => (row.get? key).getD [])
  else none

/-- `write_csv`: the text of the file. -/
def writeCsv (rows : List TableRow) (fieldnames : Option (List Bytes)) : Option Bytes :=
  let names := match fieldnames with
    | none | some [] => columns rows
    | some names => names
  (rows.mapM (dictToList names)).map fun records =>
    (names :: records).flatMap (Csv.writeRow excel)

end TelemetryTestbed.Analysis
