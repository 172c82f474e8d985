import TelemetryTestbed.Lib.Csv
import TelemetryTestbed.Lib.Dict
import TelemetryTestbed.Lib.Utf8

/-!
# The manifest in the analyzer

`read_manifest` of `analyze_repeated_experiments.py`: `csv.DictReader` on a text that is
decoded as UTF-8. The characters that mean something to it are ASCII, so the bytes do for
the characters.

A field of more than 131072 characters makes the `csv` module raise its error, and so the
whole reading (`fieldSizeLimit`). A row with fewer fields than the header gets `None` for the
rest, and one with more keeps them under the key `None`, as `DictReader` has it.
-/

namespace TelemetryTestbed.Analysis

open Lib

/-- The default dialect. -/
def excel : Csv.Dialect UInt8 :=
  ⟨44, 34, 13, 10, by decide, by decide, by decide, by decide, by decide, by decide⟩

/-- A value of a row: `rest` are the fields behind the last name, and `missing` is the
`None` of a name behind the last field. -/
inductive Cell
  | text (field : Bytes)
  | rest (fields : List Bytes)
  | missing
  deriving DecidableEq

/-- A row of `csv.DictReader`; `none` is its `restkey`. -/
abbrev ManifestRow := Dict (Option Bytes) Cell

/-- `DictReader.__next__` on a row that is not empty. -/
def dictRow (fieldnames row : List Bytes) : ManifestRow :=
  let d : ManifestRow := Dict.ofItems ((fieldnames.map some).zip (row.map Cell.text))
  if fieldnames.length < row.length then d.set none (.rest (row.drop fieldnames.length))
  else (fieldnames.drop row.length).foldl (fun d key => d.set (some key) .missing) d

/-- `csv.field_size_limit()`, which the script leaves as it is. It counts characters. -/
def fieldSizeLimit : Nat := 131072

/-- `list(csv.DictReader(f))`. `none` is an exception: the `UnicodeDecodeError` of a text that
is no UTF-8, or the `csv.Error` of a field beyond the limit or of a line that goes on behind
its end. -/
def readManifest (text : Bytes) : Option (List ManifestRow) :=
  if IsUtf8 text then
    (Csv.readWithin excel charCount fieldSizeLimit text).map fun records =>
      match records with
      | [] => []
      | fieldnames :: rows => (rows.filter fun row => row ≠ []).map (dictRow fieldnames)
  else none

/-- `manifest_row.get(key, "")`, where it is a text. -/
def ManifestRow.text? (row : ManifestRow) (key : String) : Option Bytes :=
  match row.get? (some (ascii key)) with
  | none => some []
  | some (.text field) => some field
  | some _ => none

end TelemetryTestbed.Analysis
