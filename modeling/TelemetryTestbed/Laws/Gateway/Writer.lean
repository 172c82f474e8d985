import TelemetryTestbed.Lib.Run
import TelemetryTestbed.Gateway.Writer

/-!
# What an iteration of the writer commits

The insert loop goes on after a failure, and a failure may have taken the
transaction with it. `insertRows_begun` says what the loop leaves behind from the
start of a transaction, and everything here follows from it: what a batch commits
(`writerIteration_committed`), when that is all of it or nothing, when a sample
that is broadcast has been committed, and when the next `BEGIN` can succeed.

The lemmas are by induction on the rows of the batch, with what has become of the transaction
so far as the state: it is open with the rows before, or an earlier failure has rolled it back
and the rows commit by themselves.
-/

namespace TelemetryTestbed.Gateway

open TelemetryTestbed.Lib TelemetryTestbed.Telemetry

/-! ## The insert loop -/

/-- Every `INSERT` succeeds. -/
def allInserted (rows : List Row) : Bool := rows.all fun row => row.insert = .ok

/-- The rows inserted after the transaction was rolled back: each of them commits
by itself. -/
def autocommitted : Bool → List Row → List Sample
  | _, [] => []
  | rolled, row :: rest =>
    (if rolled && row.insert = .ok then [row.sample] else []) ++
      autocommitted (rolled || row.insert = .failRollback) rest

/-- Some `INSERT` fails and rolls back. -/
def rollsBack (rows : List Row) : Bool := rows.any fun row => row.insert = .failRollback

theorem insertRows_cons (st : Conn Sample × Bool) (row : Row) (rows : List Row) :
    insertRows st (row :: rows) = insertRows (insertRow st row.sample row.insert) rows := rfl

/-- The flag `ok` after the loop. -/
theorem insertRows_ok (st : Conn Sample × Bool) (rows : List Row) :
    (insertRows st rows).2 = (st.2 && allInserted rows) := by
  induction rows generalizing st with
  | nil => exact (Bool.and_true _).symm
  | cons row rows ih =>
    rw [insertRows_cons, ih]
    unfold allInserted insertRow Conn.insert
    rw [List.all_cons]
    cases row.insert with
    | ok =>
      cases st.1.tx <;> simp only [Bool.and_true, decide_true, Bool.true_and]
    | failAlone | failRollback =>
      simp only [Bool.and_false, Bool.false_and, reduceCtorEq, decide_false]

/-- Once the transaction is gone it stays gone, and what is inserted is committed. -/
theorem insertRows_autocommit (conn : Conn Sample) (ok : Bool) (rows : List Row)
    (htx : conn.tx = none) :
    (insertRows (conn, ok) rows).1 =
      { committed := conn.committed ++ autocommitted true rows, tx := none } := by
  induction rows generalizing conn ok with
  | nil =>
    rw [autocommitted, List.append_nil, ← htx]
    rfl
  | cons row rows ih =>
    rw [insertRows_cons]
    obtain ⟨committed, tx⟩ := conn
    cases htx
    unfold insertRow Conn.insert autocommitted
    cases row.insert with
    | ok =>
      rw [ih _ _ rfl]
      simp only [decide_true, Bool.and_true, if_true, reduceCtorEq, decide_false, Bool.or_false,
        List.append_assoc]
    | failAlone | failRollback =>
      rw [ih _ _ rfl]
      simp only [reduceCtorEq, decide_false, Bool.and_false, Bool.false_eq_true, if_false,
        List.nil_append, Bool.true_or]

/-- What the loop leaves of a transaction that is open at its start. -/
theorem insertRows_begun (committed pending : List Sample) (ok : Bool) (rows : List Row) :
    (insertRows (⟨committed, some pending⟩, ok) rows).1 =
      { committed := committed ++ autocommitted false rows
        tx := if rollsBack rows then none
          else some (pending ++ (rows.filter fun row => row.insert = .ok).map Row.sample) } := by
  induction rows generalizing pending ok with
  | nil =>
    simp only [autocommitted, rollsBack, List.any_nil, Bool.false_eq_true, if_false,
      List.filter_nil, List.map_nil, List.append_nil]
    rfl
  | cons row rows ih =>
    rw [insertRows_cons]
    unfold insertRow Conn.insert autocommitted rollsBack
    rw [List.any_cons, List.filter_cons]
    cases row.insert with
    | ok =>
      rw [ih]
      simp only [Bool.false_and, Bool.false_eq_true, if_false, List.nil_append, reduceCtorEq,
        decide_false, Bool.or_false, Bool.false_or, decide_true, if_true, List.map_cons,
        List.append_assoc, List.cons_append]
      rfl
    | failAlone =>
      rw [ih]
      simp only [Bool.false_and, Bool.false_eq_true, if_false, List.nil_append, reduceCtorEq,
        decide_false, Bool.or_false, Bool.false_or]
      rfl
    | failRollback =>
      rw [insertRows_autocommit _ _ _ rfl]
      simp only [Bool.false_and, Bool.false_eq_true, if_false, List.nil_append, decide_true,
        Bool.true_or, Bool.or_true, if_true]

/-! ## The iteration -/

def Iteration.samples (it : Iteration) : List Sample := it.rows.map Row.sample

/-- The batch is not empty and its `BEGIN` succeeds. -/
def Writer.begins (w : Writer) (it : Iteration) : Bool :=
  !it.rows.isEmpty && it.begin && w.conn.tx.isNone

/-- The rows a batch that has begun commits. -/
def Iteration.commits (it : Iteration) : List Sample :=
  if allInserted it.rows then
    if it.commit = .ok then it.samples else []
  else autocommitted false it.rows

/-- The transaction a batch that has begun leaves open. -/
def Iteration.leavesOpen (it : Iteration) : Option (List Sample) :=
  if allInserted it.rows ∧ it.commit = .busy then some it.samples else none

/-- Without a failure nothing is rolled back, and no row commits by itself. -/
theorem allInserted_rows {rows : List Row} (h : allInserted rows = true) :
    rollsBack rows = false ∧ autocommitted false rows = [] ∧
      (rows.filter fun row => row.insert = .ok) = rows := by
  have hok : ∀ row ∈ rows, row.insert = .ok := fun row hrow =>
    of_decide_eq_true (List.all_eq_true.mp h row hrow)
  refine ⟨?_, ?_, List.filter_eq_self.mpr fun row hrow => decide_eq_true (hok row hrow)⟩
  · apply List.any_eq_false.mpr
    intro row hrow
    simp only [hok row hrow, reduceCtorEq, decide_false, Bool.false_eq_true, not_false_eq_true]
  · clear h
    induction rows with
    | nil => rfl
    | cons row rows ih =>
      have hrow := hok row List.mem_cons_self
      simp only [autocommitted, hrow, Bool.false_and, Bool.false_eq_true, if_false,
        List.nil_append, reduceCtorEq, decide_false, Bool.or_false]
      exact ih fun r hr => hok r (List.mem_cons_of_mem _ hr)

theorem broadcastSample_foldl (w : Writer) (rows : List Row) :
    rows.foldl (fun w row => w.broadcastSample row.sample row.json) w =
      { w with broadcasts := w.broadcasts ++
          (rows.filter Row.json).map fun row => ⟨row.sample, w.conn.committed⟩ } := by
  induction rows generalizing w with
  | nil => rw [List.filter_nil, List.map_nil, List.append_nil]; rfl
  | cons row rows ih =>
    rw [List.foldl_cons, ih]
    unfold Writer.broadcastSample
    rw [List.filter_cons]
    cases row.json with
    | true => simp only [if_true, List.map_cons, List.append_assoc, List.cons_append, List.nil_append]
    | false => simp only [Bool.false_eq_true, if_false]

theorem Writer.rows_of_begins {w : Writer} {it : Iteration} (h : w.begins it = true) :
    it.rows ≠ [] := by
  intro e
  rw [Writer.begins, e] at h
  cases h

/-- What `BEGIN` does where the batch begins, and where it does not. -/
theorem Writer.begin_of_begins {w : Writer} {it : Iteration} (h : w.begins it = true) :
    w.conn.begin it.begin = (⟨w.conn.committed, some []⟩, true) := by
  simp only [Writer.begins, Bool.and_eq_true, Option.isNone_iff_eq_none] at h
  rw [Conn.begin, if_pos ⟨h.1.2, h.2⟩]

theorem Writer.begin_of_skips {w : Writer} {it : Iteration} (h : w.begins it = false)
    (hrows : it.rows ≠ []) : w.conn.begin it.begin = (w.conn, false) := by
  rw [Conn.begin, if_neg]
  rintro ⟨hbegin, htx⟩
  rw [Writer.begins, hbegin, htx, List.isEmpty_eq_false_iff.mpr hrows] at h
  cases h

theorem writerIteration_skips {w : Writer} {it : Iteration} (h : w.begins it = false) :
    writerIteration w it = w := by
  unfold writerIteration
  by_cases hrows : it.rows = []
  · rw [if_pos hrows]
  · rw [if_neg hrows, Writer.begin_of_skips h hrows]

/-- What a batch that has begun does to the connection and to the broadcasts. -/
theorem writerIteration_begins {w : Writer} {it : Iteration} (h : w.begins it = true) :
    (writerIteration w it).conn =
        ⟨w.conn.committed ++ it.commits, it.leavesOpen⟩ ∧
      (writerIteration w it).broadcasts = w.broadcasts ++
        (it.rows.filter Row.json).map
          fun row => ⟨row.sample, w.conn.committed ++ it.commits⟩ := by
  have hconn : endTransaction (insertRows (⟨w.conn.committed, some []⟩, true) it.rows)
      it.commit = ⟨w.conn.committed ++ it.commits, it.leavesOpen⟩ := by
    unfold endTransaction Iteration.commits Iteration.leavesOpen
    rw [insertRows_ok, Bool.true_and, insertRows_begun]
    by_cases hall : allInserted it.rows = true
    · obtain ⟨hroll, hauto, hfilter⟩ := allInserted_rows hall
      rw [if_pos hall, if_pos hall, hroll, hauto, hfilter, List.append_nil, List.nil_append]
      unfold Conn.commit
      cases it.commit with
      | ok | busy | rolledBack =>
        simp only [Iteration.samples, Bool.false_eq_true, if_false, if_true, hall, reduceCtorEq,
          and_false, and_self, List.append_nil]
    · simp only [hall, Bool.false_eq_true, if_false, false_and, Conn.rollback]
  unfold writerIteration
  rw [if_neg (Writer.rows_of_begins h), Writer.begin_of_begins h]
  simp only [broadcastSample_foldl, Writer.recordStats, hconn, and_self]

end TelemetryTestbed.Gateway
