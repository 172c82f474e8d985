import Mathlib.Data.List.Dedup
import Mathlib.Data.List.Sort
import TelemetryTestbed.Lib.DoubleInt

/-!
# The sequence metrics

What `analyze_db` of `analyze_repeated_experiments.py` computes of the column `seq`: the
aggregates are SQL over integers, the scan compares integers, and every metric is a
`float` in the end.

The doubles are those of the library, so each conversion rounds once where a number is too
large for the mantissa. Rows come in the order of `received_at_ns` and then `id`, whatever the
order in which they were stored.
-/

namespace TelemetryTestbed.Analysis

open Lib

/-- The columns of a row that the metrics read; `none` is NULL. -/
structure SeqRow where
  id : Int
  receivedAtNs : Int
  seq : Option Int
  deriving DecidableEq

/-- `SELECT MIN(seq)`, which passes over NULL. -/
def sqlMin (seqs : List (Option Int)) : Option Int := (seqs.filterMap id).min?

/-- `SELECT MAX(seq)` -/
def sqlMax (seqs : List (Option Int)) : Option Int := (seqs.filterMap id).max?

/-- `SELECT COUNT(DISTINCT seq)` -/
def sqlCountDistinct (seqs : List (Option Int)) : Nat := (seqs.filterMap id).dedup.length

/-- The order of `ORDER BY received_at_ns, id`. -/
def SeqRow.Before (r r' : SeqRow) : Prop :=
  r.receivedAtNs < r'.receivedAtNs ∨ (r.receivedAtNs = r'.receivedAtNs ∧ r.id ≤ r'.id)

instance : DecidableRel SeqRow.Before := fun _ _ => inferInstanceAs (Decidable (_ ∨ _))

/-- The variables of the loop over the rows, after some of them. -/
structure SeqScan where
  seqDecrease : Nat
  seqEqual : Nat
  prev : Option Int

/-- One round of the scan. -/
def SeqScan.next (s : SeqScan) (seq : Option Int) : SeqScan :=
  match seq with
  | none => s
  | some seq =>
    let s := match s.prev with
      | none => s
      | some prev =>
        let s := if seq < prev then { s with seqDecrease := s.seqDecrease + 1 } else s
        if seq = prev then { s with seqEqual := s.seqEqual + 1 } else s
    { s with prev := some seq }

def scanSeqs (seqs : List (Option Int)) : SeqScan := seqs.foldl SeqScan.next ⟨0, 0, none⟩

/-- The metrics of the sequence numbers that `analyze_db` returns, each of them a `float`. -/
structure SeqMetrics where
  rows : Double
  seqMin : Double
  seqMax : Double
  seqSpan : Double
  seqDistinct : Double
  seqDuplicateRows : Double
  seqDecreaseCount : Double
  seqEqualAdjacentCount : Double

/-- The metrics of `analyze_db` for the rows of `telemetry_state`, as far as they are made of
`seq`; they stay `nan` where there is no row. The function with its query answers, the file
and the other metrics is in `RunDatabase`, over exact numbers. -/
def analyzeDb (table : List SeqRow) : SeqMetrics :=
  let nan := .nan false
  let rows := Double.ofNat table.length
  if table.length = 0 then ⟨rows, nan, nan, nan, nan, nan, nan, nan⟩
  else
    let seqs := table.map SeqRow.seq
    let seqMin := Double.ofInt ((sqlMin seqs).getD 0)
    let seqMax := Double.ofInt ((sqlMax seqs).getD 0)
    let seqDistinct := Double.ofNat (sqlCountDistinct seqs)
    let scan := scanSeqs ((table.insertionSort SeqRow.Before).map SeqRow.seq)
    { rows
      seqMin
      seqMax
      seqSpan := seqMax.sub seqMin
      seqDistinct
      seqDuplicateRows := (rows.sub seqDistinct).max0
      seqDecreaseCount := .ofNat scan.seqDecrease
      seqEqualAdjacentCount := .ofNat scan.seqEqual }

end TelemetryTestbed.Analysis
