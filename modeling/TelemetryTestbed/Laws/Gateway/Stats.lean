import Mathlib.Algebra.Order.Field.Rat
import Mathlib.Tactic.Positivity
import Mathlib.Tactic.Ring
import TelemetryTestbed.Gateway.Stats
import TelemetryTestbed.Laws.Gateway.Persistence

/-!
# What the statistics count

The counters are updated behind `COMMIT` and `ROLLBACK` alike, by the length of the
batch and by one. They are the numbers of stored rows and of committed transactions
exactly as long as every batch that begins is committed whole
(`statistics_exact_iff`).

The integral of the rates is a sum of differences in exact arithmetic, so it telescopes to the
last counter whatever the snapshots in between. It says that nothing is counted twice or left
out, not that the printed rates, rounded to a decimal each, add up to anything.
-/

namespace TelemetryTestbed.Gateway

open TelemetryTestbed.Lib TelemetryTestbed.Telemetry

/-! ## Transactions -/

/-- The `INSERT`s of the loop that commit by themselves. -/
def rowTransactions : Conn Sample × Bool → List Row → Nat
  | _, [] => 0
  | st, row :: rows =>
    (if st.1.tx.isNone && row.insert = .ok then 1 else 0) +
      rowTransactions (insertRow st row.sample row.insert) rows

/-- Whether the end of the batch commits its transaction. -/
def endCommits (st : Conn Sample × Bool) (answer : CommitAnswer) : Nat :=
  if st.2 && (st.1.commit answer).2 then 1 else 0

/-- The transactions one iteration commits. -/
def Writer.transactionsOf (w : Writer) (it : Iteration) : Nat :=
  if it.rows = [] then 0
  else match w.conn.begin it.begin with
    | (_, false) => 0
    | (conn, true) =>
      rowTransactions (conn, true) it.rows + endCommits (insertRows (conn, true) it.rows) it.commit

/-- The transactions that iterations commit, from a writer on. -/
def transactions : Writer → List Iteration → Nat
  | _, [] => 0
  | w, it :: its => w.transactionsOf it + transactions (writerIteration w it) its

theorem rowTransactions_begun {rows : List Row} (h : allInserted rows = true)
    (committed pending : List Sample) (ok : Bool) :
    rowTransactions (⟨committed, some pending⟩, ok) rows = 0 := by
  induction rows generalizing pending ok with
  | nil => rfl
  | cons row rows ih =>
    unfold allInserted at h
    rw [List.all_cons, Bool.and_eq_true, decide_eq_true_eq] at h
    rw [rowTransactions, insertRow, h.1, Conn.insert]
    exact (Nat.zero_add _).trans (ih h.2 _ _)

/-- A batch that begins and is committed whole is one transaction. -/
theorem transactionsOf_whole {w : Writer} {it : Iteration} (hbegins : w.begins it = true)
    (hall : allInserted it.rows = true) (hcommit : it.commit = .ok) : w.transactionsOf it = 1 := by
  have hstate := insertRows_begun w.conn.committed [] true it.rows
  rw [(allInserted_rows hall).1, if_neg Bool.false_ne_true] at hstate
  rw [Writer.transactionsOf, if_neg (Writer.rows_of_begins hbegins),
    Writer.begin_of_begins hbegins]
  show rowTransactions (⟨w.conn.committed, some []⟩, true) it.rows + _ = 1
  rw [rowTransactions_begun hall, endCommits, insertRows_ok, hall, hstate, hcommit]
  rfl

theorem transactionsOf_skips {w : Writer} {it : Iteration} (h : w.begins it = false) :
    w.transactionsOf it = 0 := by
  unfold Writer.transactionsOf
  by_cases hrows : it.rows = []
  · rw [if_pos hrows]
  · rw [if_neg hrows, Writer.begin_of_skips h hrows]

/-! ## The counters -/

theorem writerIteration_counts {w : Writer} {it : Iteration} (h : w.begins it = true) :
    (writerIteration w it).dbRows = w.dbRows + it.rows.length ∧
      (writerIteration w it).commitCount = w.commitCount + 1 := by
  unfold writerIteration
  rw [if_neg (Writer.rows_of_begins h), Writer.begin_of_begins h]
  simp only [broadcastSample_foldl, Writer.recordStats, and_self]

theorem dbRows_le_foldl (w : Writer) (its : List Iteration) :
    w.dbRows ≤ (its.foldl writerIteration w).dbRows := by
  induction its generalizing w with
  | nil => exact Nat.le_refl _
  | cons it its ih =>
    have hstep : w.dbRows ≤ (writerIteration w it).dbRows := by
      cases hbegins : w.begins it with
      | false => rw [writerIteration_skips hbegins]
      | true =>
        rw [(writerIteration_counts hbegins).1]
        exact Nat.le_add_right _ _
    exact hstep.trans (ih _)

/-- A batch that begins is committed whole. -/
def Writer.commitsWhole (w : Writer) (it : Iteration) : Prop :=
  w.begins it = true → allInserted it.rows = true ∧ it.commit = .ok

/-- The rows that are counted are the rows that are stored. -/
def Writer.RowsCounted (w : Writer) : Prop := w.dbRows = w.conn.committed.length

/-- What a batch that begins stores, and what it is counted for. -/
theorem rowsCounted_step {w : Writer} {it : Iteration} (h : w.RowsCounted) :
    (writerIteration w it).RowsCounted ↔ w.commitsWhole it := by
  unfold Writer.RowsCounted at h ⊢
  cases hbegins : w.begins it with
  | false =>
    rw [writerIteration_skips hbegins, Writer.commitsWhole, hbegins]
    exact ⟨fun _ hno => (by cases hno), fun _ => h⟩
  | true =>
    have hrows : it.rows ≠ [] := Writer.rows_of_begins hbegins
    have hlt := length_autocommitted_lt hrows
    have hpos := List.length_pos_of_ne_nil hrows
    rw [(writerIteration_counts hbegins).1, (writerIteration_begins hbegins).1,
      Writer.commitsWhole, hbegins, List.length_append, h, Nat.add_left_cancel_iff]
    unfold Iteration.commits
    by_cases hall : allInserted it.rows = true
    · rw [if_pos hall]
      by_cases hcommit : it.commit = .ok
      · rw [if_pos hcommit, Iteration.samples, List.length_map]
        exact ⟨fun _ _ => ⟨hall, hcommit⟩, fun _ => rfl⟩
      · rw [if_neg hcommit, List.length_nil]
        exact ⟨fun h0 => (by omega), fun hw => absurd (hw rfl).2 hcommit⟩
    · rw [if_neg hall]
      exact ⟨fun heq => (by omega), fun hw => absurd (hw rfl).1 hall⟩

theorem commitCount_foldl {w : Writer} {its : List Iteration}
    (h : Guarded writerStep Writer.commitsWhole w its) :
    (its.foldl writerIteration w).commitCount = w.commitCount + transactions w its := by
  induction its generalizing w with
  | nil => rfl
  | cons it its ih =>
    rw [List.foldl_cons, ih (h.2 _ rfl), transactions]
    cases hbegins : w.begins it with
    | false =>
      rw [writerIteration_skips hbegins, transactionsOf_skips hbegins, Nat.zero_add]
    | true =>
      obtain ⟨hall, hcommit⟩ := h.1 hbegins
      rw [(writerIteration_counts hbegins).2, transactionsOf_whole hbegins hall hcommit,
        Nat.add_assoc]

/-! ## The printed rates -/

/-- The snapshots are taken at loop heads, each after some more iterations. -/
def TakenAlong : Writer → List (List Iteration × StatsSnapshot) → Prop
  | _, [] => True
  | w, (its, now) :: rounds =>
    now.dbRows = (its.foldl writerIteration w).dbRows ∧
      TakenAlong (its.foldl writerIteration w) rounds

/-- The integral of the printed row rates. -/
def integratedRows (startMonoNs batchSize : Int) : StatsSnapshot → List StatsSnapshot → ℚ
  | _, [] => 0
  | last, now :: rounds =>
    (gwStat startMonoNs batchSize last now).db * dtSeconds last now +
      integratedRows startMonoNs batchSize now rounds

theorem dtSeconds_pos (last now : StatsSnapshot) : 0 < dtSeconds last now := by
  unfold dtSeconds
  split
  · next h =>
    have hpos : (0 : ℚ) < ((now.monoNs - last.monoNs : Int) : ℚ) := by
      exact_mod_cast Int.sub_pos_of_lt h
    positivity
  · exact one_pos

/-- The rates integrate to the rows counted in between. -/
theorem integratedRows_eq (startMonoNs batchSize : Int) {w : Writer} {last : StatsSnapshot}
    {rounds : List (List Iteration × StatsSnapshot)} (hlast : last.dbRows = w.dbRows)
    (h : TakenAlong w rounds) :
    integratedRows startMonoNs batchSize last (rounds.map Prod.snd) + w.dbRows =
      ((rounds.flatMap Prod.fst).foldl writerIteration w).dbRows := by
  induction rounds generalizing w last with
  | nil => exact zero_add _
  | cons round rounds ih =>
    obtain ⟨its, now⟩ := round
    obtain ⟨hnow, hrest⟩ := h
    have hle := dbRows_le_foldl w its
    have hdt := (dtSeconds_pos last now).ne'
    have hdiff : (gwStat startMonoNs batchSize last now).db * dtSeconds last now =
        (now.dbRows : ℚ) - w.dbRows := by
      show ((now.dbRows - last.dbRows : Nat) : ℚ) / dtSeconds last now * dtSeconds last now = _
      rw [div_mul_cancel₀ _ hdt, hlast, Nat.cast_sub (hnow ▸ hle)]
    rw [List.flatMap_cons, List.foldl_append, ← ih hnow hrest, List.map_cons, integratedRows,
      hdiff, hnow]
    ring

/-- What holds at the loop head behind these iterations. `dbRows` and `commitCount` compare
the counters of `writer_thread` with the rows and the transactions that the database has
committed. `rates` takes any snapshots of the counters on the way, the last one here, and adds
up the row rate of each round times its `dt_s`. The rates are those of exact arithmetic
(`gwStat`): a printed line has them as doubles, rounded to one place, and sums of those
are off by the rounding. -/
structure StatisticsExact (its : List Iteration) : Prop where
  dbRows : (runWriter its).dbRows = (runWriter its).conn.committed.length
  commitCount : (runWriter its).commitCount = transactions Writer.init its
  rates : ∀ startMonoNs batchSize rounds, rounds.flatMap Prod.fst = its →
    TakenAlong Writer.init rounds →
    integratedRows startMonoNs batchSize (.start startMonoNs) (rounds.map Prod.snd) =
      (runWriter its).conn.committed.length

/-- **The statistics are those of the database** at every loop head of a run exactly if every
batch that begins is committed whole. The iterations may have any samples and any answers of
SQLite; the guard looks at the state before an iteration and at the answers that the
iteration gets. -/
theorem statistics_exact_iff (its : List Iteration) :
    Guarded writerStep Writer.commitsWhole Writer.init its ↔
      ∀ pre post, its = pre ++ post → StatisticsExact pre := by
  have hrows := @guarded_writer_iff Writer.RowsCounted Writer.RowsCounted
    (fun _ _ => True) Writer.commitsWhole (fun _ h => h)
    (fun w it h _ hg => (rowsCounted_step h).mpr hg)
    (fun w it h _ hP => (rowsCounted_step h).mp hP) rfl its
    (Guarded.of_forall (fun _ _ => True.intro) Writer.init its)
  constructor
  · intro h pre post happ
    have hcounted : (runWriter pre).RowsCounted := hrows.mp h pre post happ
    refine ⟨hcounted, ?_, ?_⟩
    · rw [runWriter, commitCount_foldl (happ ▸ h).left]
      exact Nat.zero_add _
    · intro startMonoNs batchSize rounds hpre htaken
      have hint := @integratedRows_eq startMonoNs batchSize Writer.init (.start startMonoNs)
        rounds rfl htaken
      rw [hpre] at hint
      have hstored : ((runWriter pre).dbRows : ℚ) = (runWriter pre).conn.committed.length :=
        congrArg Nat.cast hcounted
      rw [← hstored, runWriter, ← hint]
      exact (add_zero _).symm
  · intro h
    exact hrows.mpr fun pre post happ => (h pre post happ).dbRows

/-- One sample whose `INSERT` fails is counted as a row and its rollback as a commit. -/
theorem failedInsert_counted : (runWriter failedInsert).dbRows = 1 ∧
    (runWriter failedInsert).commitCount = 1 ∧
    (runWriter failedInsert).conn.committed = [] ∧ transactions Writer.init failedInsert = 0 := by
  decide

end TelemetryTestbed.Gateway
