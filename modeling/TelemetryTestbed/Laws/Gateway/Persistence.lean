import TelemetryTestbed.Laws.Gateway.Writer

/-!
# Atomic, persisted, never wedged

Three laws of the writer, each with the answers of SQLite under which it holds. A
batch is all or nothing unless an `INSERT` succeeds after one that rolled the
transaction back (`batch_atomic_iff`). The loop head finds no open transaction
unless a `COMMIT` is busy (`never_wedged_iff`). What is broadcast is committed
unless its batch is not, since the broadcast loop runs whatever the database
answered (`broadcast_persisted_iff`).

Each law is an equivalence, so the condition is exact: the first two by the one iteration in
which it fails, the third up to samples that come twice. The conditions are on the answers of
SQLite in the iteration and the state before it. That an iteration without a `BEGIN` does
nothing is part of the model and not of the conditions.
-/

namespace TelemetryTestbed.Gateway

open TelemetryTestbed.Lib TelemetryTestbed.Telemetry

/-- The writer after a list of iterations. -/
def runWriter (its : List Iteration) : Writer := its.foldl writerIteration Writer.init

theorem exec_writerStep (w : Writer) (its : List Iteration) :
    exec writerStep w its = some (its.foldl writerIteration w) := by
  induction its generalizing w with
  | nil => rfl
  | cons it its ih => exact ih (writerIteration w it)

/-- A law of every loop head, where the guard is what each iteration needs for it. -/
theorem guarded_writer_iff {I P : Writer → Prop} {scope guard : Writer → Iteration → Prop}
    (property : ∀ w, I w → P w)
    (preserved : ∀ w it, I w → scope w it → guard w it → I (writerIteration w it))
    (needed : ∀ w it, I w → scope w it → P (writerIteration w it) → guard w it)
    (h0 : I Writer.init) {its : List Iteration}
    (hscope : Guarded writerStep scope Writer.init its) :
    Guarded writerStep guard Writer.init its ↔
      ∀ pre post, its = pre ++ post → P (runWriter pre) := by
  have hkeep : ∀ w it w', I w → scope w it → guard w it → writerStep w it = some w' → I w' :=
    fun w it _ hI hs hg hstep => Option.some.inj hstep ▸ preserved w it hI hs hg
  have hneed : ∀ w it w', I w → scope w it → writerStep w it = some w' → P w' → guard w it :=
    fun w it _ hI hs hstep hP => needed w it hI hs (Option.some.inj hstep ▸ hP)
  rw [guarded_iff_forall_reached property hkeep hneed h0 hscope (exec_writerStep _ its)]
  constructor
  · exact fun h pre post happ => h pre post _ happ (exec_writerStep _ pre)
  · intro h pre post w happ hw
    rw [exec_writerStep] at hw
    exact Option.some.inj hw ▸ h pre post happ

/-! ## Batches -/

/-- An `INSERT` succeeds after one that rolled the transaction back. -/
def insertsAfterRollback : Bool → List Row → Bool
  | _, [] => false
  | rolled, row :: rest =>
    (rolled && row.insert = .ok) || insertsAfterRollback (rolled || row.insert = .failRollback) rest

theorem autocommitted_eq_nil_iff (rolled : Bool) (rows : List Row) :
    autocommitted rolled rows = [] ↔ insertsAfterRollback rolled rows = false := by
  induction rows generalizing rolled with
  | nil => exact ⟨fun _ => rfl, fun _ => rfl⟩
  | cons row rows ih =>
    rw [autocommitted, insertsAfterRollback, List.append_eq_nil_iff, ih, Bool.or_eq_false_iff]
    refine and_congr_left fun _ => ?_
    cases rolled && decide (row.insert = .ok) with
    | true => exact ⟨fun h => (by cases h), fun h => (by cases h)⟩
    | false => exact ⟨fun _ => rfl, fun _ => rfl⟩

theorem length_autocommitted_le (rolled : Bool) (rows : List Row) :
    (autocommitted rolled rows).length ≤ rows.length := by
  induction rows generalizing rolled with
  | nil => exact Nat.le_refl 0
  | cons row rows ih =>
    have hrest := ih (rolled || row.insert = .failRollback)
    rw [autocommitted, List.length_append, List.length_cons]
    split
    · rw [List.length_singleton]
      omega
    · rw [List.length_nil]
      omega

/-- The first row of a batch does not commit by itself. -/
theorem length_autocommitted_lt {rows : List Row} (h : rows ≠ []) :
    (autocommitted false rows).length < rows.length := by
  cases rows with
  | nil => exact absurd rfl h
  | cons row rows =>
    rw [autocommitted, Bool.false_and, if_neg Bool.false_ne_true, List.nil_append,
      List.length_cons]
    exact Nat.lt_succ_of_le (length_autocommitted_le _ rows)

/-- **A batch is appended whole or not at all,** whatever the writer's state and the answers of
the iteration, exactly if no `INSERT` succeeds after one of the same batch whose failure rolled
the transaction back. Such an `INSERT` is outside of any transaction and commits by itself,
while the rows before it are lost. -/
theorem batch_atomic_iff (w : Writer) (it : Iteration) :
    ((writerIteration w it).conn.committed = w.conn.committed ∨
      (writerIteration w it).conn.committed = w.conn.committed ++ it.samples) ↔
    (w.begins it = true → insertsAfterRollback false it.rows = false) := by
  cases hbegins : w.begins it with
  | false =>
    rw [writerIteration_skips hbegins]
    exact ⟨fun _ h => (by cases h), fun _ => Or.inl rfl⟩
  | true =>
    have hrows : it.rows ≠ [] := Writer.rows_of_begins hbegins
    rw [(writerIteration_begins hbegins).1]
    show (w.conn.committed ++ it.commits = _ ∨ w.conn.committed ++ it.commits = _) ↔ _
    rw [List.append_right_eq_self, List.append_cancel_left_eq, ← autocommitted_eq_nil_iff]
    unfold Iteration.commits
    by_cases hall : allInserted it.rows = true
    · rw [if_pos hall]
      refine ⟨fun _ _ => (allInserted_rows hall).2.1, fun _ => ?_⟩
      split
      · exact Or.inr rfl
      · exact Or.inl rfl
    · rw [if_neg hall]
      refine ⟨fun h _ => h.resolve_right fun e => ?_, fun h => Or.inl (h rfl)⟩
      have hlt := length_autocommitted_lt hrows
      rw [e, Iteration.samples, List.length_map] at hlt
      exact Nat.lt_irrefl _ hlt

/-- Samples of empty messages, told apart by their number. -/
def plainSample (n : Nat) : Sample := ⟨n, telemetryStateOf .empty 0 none⟩

/-- The first `INSERT` of two runs out of disk and rolls back; the second succeeds. -/
def tornBatch : Iteration where
  rows := [⟨plainSample 0, .failRollback, true⟩, ⟨plainSample 1, .ok, true⟩]
  begin := true
  commit := .ok
  t0 := 0
  t1 := 0

/-- The second row of the batch is committed, and the first is lost. -/
theorem tornBatch_torn :
    ¬ ((writerIteration Writer.init tornBatch).conn.committed = [] ∨
      (writerIteration Writer.init tornBatch).conn.committed = tornBatch.samples) := by
  have hlen : (writerIteration Writer.init tornBatch).conn.committed.length = 1 := by decide
  rintro (h | h)
  · rw [h] at hlen
    cases hlen
  · rw [h] at hlen
    cases hlen

/-! ## The transaction at the loop head -/

/-- A `COMMIT` is tried and fails with the transaction left open. -/
def Writer.commitBusy (w : Writer) (it : Iteration) : Bool :=
  w.begins it && allInserted it.rows && it.commit = .busy

/-- **The writer is never wedged.** At every loop head of a run, whatever fails in it, no
transaction is open, so that the next `BEGIN` can succeed, exactly if no `COMMIT` that is tried
answers that the database is busy. That answer leaves the transaction open, and nothing behind
it rolls back (`wedged_forever`). -/
theorem never_wedged_iff (its : List Iteration) :
    Guarded writerStep (fun w it => w.commitBusy it = false) Writer.init its ↔
      ∀ pre post, its = pre ++ post → (runWriter pre).conn.tx = none := by
  have hopen : ∀ (w : Writer) it, w.conn.tx = none →
      ((writerIteration w it).conn.tx = none ↔ w.commitBusy it = false) := by
    intro w it htx
    cases hbegins : w.begins it with
    | false =>
      rw [writerIteration_skips hbegins, Writer.commitBusy, hbegins]
      exact ⟨fun _ => rfl, fun _ => htx⟩
    | true =>
      rw [(writerIteration_begins hbegins).1, Writer.commitBusy, hbegins, Bool.true_and]
      unfold Iteration.leavesOpen
      by_cases hbusy : allInserted it.rows = true ∧ it.commit = .busy
      · rw [if_pos hbusy, hbusy.1, hbusy.2]
        exact ⟨fun h => (by cases h), fun h => (by cases h)⟩
      · rw [if_neg hbusy]
        refine ⟨fun _ => ?_, fun _ => rfl⟩
        rw [← Bool.not_eq_true, Bool.and_eq_true, decide_eq_true_eq]
        exact hbusy
  exact guarded_writer_iff (fun _ h => h) (fun w it h _ hg => (hopen w it h).mpr hg)
    (fun w it h _ hP => (hopen w it h).mp hP) rfl
    (Guarded.of_forall (fun _ _ => True.intro) Writer.init its)

/-- Once a transaction is left open every batch is dropped. -/
theorem wedged_forever {w : Writer} (h : w.conn.tx ≠ none) (its : List Iteration) :
    its.foldl writerIteration w = w := by
  induction its with
  | nil => rfl
  | cons it its ih =>
    have hbegins : w.begins it = false := by
      rw [Writer.begins, Option.isNone_eq_false_iff.mpr (Option.isSome_iff_ne_none.mpr h),
        Bool.and_false]
    rw [List.foldl_cons, writerIteration_skips hbegins, ih]

/-- One batch whose `COMMIT` is busy, and one that nothing would keep from success. -/
def busyCommit : List Iteration :=
  [⟨[⟨plainSample 0, .ok, true⟩], true, .busy, 0, 0⟩,
   ⟨[⟨plainSample 1, .ok, true⟩], true, .ok, 0, 0⟩]

theorem busyCommit_wedges :
    (runWriter busyCommit).conn.tx ≠ none ∧ (runWriter busyCommit).conn.committed = [] := by
  decide

/-! ## Broadcasts -/

/-- Every sample with a text is inserted after its batch was rolled back. -/
def textsAutocommitted : Bool → List Row → Bool
  | _, [] => true
  | rolled, row :: rest =>
    (!row.json || (rolled && row.insert = .ok)) &&
      textsAutocommitted (rolled || row.insert = .failRollback) rest

/-- The batch is committed, or what it will broadcast commits by itself. -/
def Iteration.persists (it : Iteration) : Bool :=
  (allInserted it.rows && it.commit = .ok) || textsAutocommitted false it.rows

/-- The samples of a batch are new ones. -/
def Writer.fresh (w : Writer) (it : Iteration) : Prop :=
  it.samples.Nodup ∧ ∀ s ∈ it.samples, s ∉ w.conn.committed

theorem mem_autocommitted {rolled : Bool} {rows : List Row}
    (h : textsAutocommitted rolled rows = true) :
    ∀ row ∈ rows, row.json = true → row.sample ∈ autocommitted rolled rows := by
  induction rows generalizing rolled with
  | nil => exact fun row hrow => absurd hrow List.not_mem_nil
  | cons r rows ih =>
    rw [textsAutocommitted, Bool.and_eq_true, Bool.or_eq_true, Bool.not_eq_true'] at h
    obtain ⟨hfirst, hrest⟩ := h
    intro row hrow hjson
    rw [autocommitted]
    rcases List.mem_cons.mp hrow with rfl | hrow
    · rw [hjson] at hfirst
      rw [if_pos (hfirst.resolve_left fun e => by cases e)]
      exact List.mem_append_left _ (List.mem_singleton_self _)
    · exact List.mem_append_right _ (ih hrest row hrow hjson)

theorem autocommitted_subset {rolled : Bool} {rows : List Row} {s : Sample}
    (h : s ∈ autocommitted rolled rows) : s ∈ rows.map Row.sample := by
  induction rows generalizing rolled with
  | nil => cases h
  | cons row rows ih =>
    rw [autocommitted, List.mem_append] at h
    rcases h with h | h
    · split at h
      · exact List.mem_singleton.mp h ▸ List.mem_cons_self
      · cases h
    · exact List.mem_cons_of_mem _ (ih h)

theorem textsAutocommitted_of_mem {rolled : Bool} {rows : List Row}
    (hnodup : (rows.map Row.sample).Nodup)
    (h : ∀ row ∈ rows, row.json = true → row.sample ∈ autocommitted rolled rows) :
    textsAutocommitted rolled rows = true := by
  induction rows generalizing rolled with
  | nil => rfl
  | cons row rows ih =>
    rw [List.map_cons, List.nodup_cons] at hnodup
    rw [textsAutocommitted, Bool.and_eq_true, Bool.or_eq_true, Bool.not_eq_true']
    refine ⟨?_, ih hnodup.2 fun r hr hjson => ?_⟩
    · cases hjson : row.json with
      | false => exact Or.inl rfl
      | true =>
        apply Or.inr
        have hmem := h row List.mem_cons_self hjson
        rw [autocommitted, List.mem_append] at hmem
        have hfirst := hmem.resolve_right fun hrest => hnodup.1 (autocommitted_subset hrest)
        split at hfirst
        next hcond => exact hcond
        next => cases hfirst
    · have hmem := h r (List.mem_cons_of_mem _ hr) hjson
      rw [autocommitted, List.mem_append] at hmem
      apply hmem.resolve_left
      intro hfirst
      split at hfirst
      · apply hnodup.1
        rw [← List.mem_singleton.mp hfirst]
        exact List.mem_map_of_mem hr
      · cases hfirst

/-- Whatever was broadcast had been committed by then. -/
def Writer.BroadcastsPersisted (w : Writer) : Prop :=
  ∀ b ∈ w.broadcasts, b.sample ∈ b.stored

/-- Each new broadcast is of a sample with a text. -/
theorem broadcasts_persisted_step {w : Writer} {it : Iteration} (h : w.BroadcastsPersisted) :
    (writerIteration w it).BroadcastsPersisted ↔
      (w.begins it = true → ∀ row ∈ it.rows, row.json = true →
        row.sample ∈ w.conn.committed ++ it.commits) := by
  cases hbegins : w.begins it with
  | false =>
    rw [writerIteration_skips hbegins]
    exact ⟨fun _ e => (by cases e), fun _ => h⟩
  | true =>
    unfold Writer.BroadcastsPersisted
    rw [(writerIteration_begins hbegins).2]
    constructor
    · intro hall _ row hrow hjson
      exact hall ⟨row.sample, _⟩ (List.mem_append_right _
        (List.mem_map.mpr ⟨row, List.mem_filter.mpr ⟨hrow, hjson⟩, rfl⟩))
    · intro hall b hb
      rcases List.mem_append.mp hb with hb | hb
      · exact h b hb
      · obtain ⟨row, hrow, rfl⟩ := List.mem_map.mp hb
        obtain ⟨hrow, hjson⟩ := List.mem_filter.mp hrow
        exact hall rfl row hrow hjson

/-- A batch that persists commits every sample it broadcasts. -/
theorem mem_commits_of_persists {it : Iteration} (h : it.persists = true) :
    ∀ row ∈ it.rows, row.json = true → row.sample ∈ it.commits := by
  intro row hrow hjson
  unfold Iteration.commits
  rw [Iteration.persists, Bool.or_eq_true, Bool.and_eq_true, decide_eq_true_eq] at h
  by_cases hall : allInserted it.rows = true
  · rw [if_pos hall]
    rcases h with h | h
    · rw [if_pos h.2]
      exact List.mem_map_of_mem hrow
    · have hmem := mem_autocommitted h row hrow hjson
      rw [(allInserted_rows hall).2.1] at hmem
      cases hmem
  · rw [if_neg hall]
    exact mem_autocommitted (h.resolve_left fun hand => hall hand.1) row hrow hjson

theorem persists_of_mem_commits {it : Iteration} (hnodup : it.samples.Nodup)
    (h : ∀ row ∈ it.rows, row.json = true → row.sample ∈ it.commits) :
    it.persists = true := by
  unfold Iteration.commits at h
  rw [Iteration.persists, Bool.or_eq_true, Bool.and_eq_true, decide_eq_true_eq]
  by_cases hall : allInserted it.rows = true
  · rw [if_pos hall] at h
    by_cases hcommit : it.commit = .ok
    · exact Or.inl ⟨hall, hcommit⟩
    · refine Or.inr (textsAutocommitted_of_mem hnodup fun row hrow hjson => ?_)
      have hmem := h row hrow hjson
      rw [if_neg hcommit] at hmem
      cases hmem
  · rw [if_neg hall] at h
    exact Or.inr (textsAutocommitted_of_mem hnodup h)

/-- The batch of every iteration whose `BEGIN` succeeds is committed, or what it
broadcasts commits by itself. -/
def Writer.persistsBatch (w : Writer) (it : Iteration) : Prop :=
  w.begins it = true → it.persists = true

/-- **What is broadcast has been stored.** The runs are lists of iterations of `writer_thread`
with any batches and any answers of SQLite and the allocator. The first part: if in every
iteration whose `BEGIN` succeeds the batch is committed, or each of its samples that has a text
commits by itself, then at every loop head of the run each sample passed to
`ws_server_broadcast` had been committed by then. The second is the converse, for runs in which
no sample comes twice, as none does in a run of the pipeline. The condition looks at the answers
that the iteration gets; the broadcast loop itself looks at none of them. -/
theorem broadcast_persisted_iff (its : List Iteration) :
    (Guarded writerStep Writer.persistsBatch Writer.init its →
      ∀ pre post, its = pre ++ post → (runWriter pre).BroadcastsPersisted) ∧
    (Guarded writerStep Writer.fresh Writer.init its →
      (∀ pre post, its = pre ++ post → (runWriter pre).BroadcastsPersisted) →
        Guarded writerStep Writer.persistsBatch Writer.init its) := by
  have hkeep : ∀ (w : Writer) it, w.BroadcastsPersisted → w.persistsBatch it →
      (writerIteration w it).BroadcastsPersisted := fun w it h hg =>
    (broadcasts_persisted_step h).mpr fun hbegins row hrow hjson =>
      List.mem_append_right _ (mem_commits_of_persists (hg hbegins) row hrow hjson)
  have hneed : ∀ (w : Writer) it, w.BroadcastsPersisted → w.fresh it →
      (writerIteration w it).BroadcastsPersisted → w.persistsBatch it := by
    intro w it h hfresh hnext hbegins
    apply persists_of_mem_commits hfresh.1
    intro row hrow hjson
    have hmem := (broadcasts_persisted_step h).mp hnext hbegins row hrow hjson
    exact (List.mem_append.mp hmem).resolve_left
      (hfresh.2 row.sample (List.mem_map_of_mem hrow))
  have hinit : Writer.init.BroadcastsPersisted := fun b hb => absurd hb List.not_mem_nil
  refine ⟨fun hg pre post happ => ?_, fun hfresh hall => ?_⟩
  · exact exec_invariant (fun w it w' h hg hstep => Option.some.inj hstep ▸ hkeep w it h hg)
      hinit (happ ▸ hg).left (exec_writerStep _ pre)
  · exact (guarded_writer_iff (fun _ h => h) (fun w it h _ hg => hkeep w it h hg)
      hneed hinit hfresh).mpr hall

/-- A batch that is committed, one that cannot begin, and one whose first `INSERT` rolls it
back: its first sample has no text, and the second commits by itself. -/
def persistedBatches : List Iteration :=
  [⟨[⟨plainSample 0, .ok, true⟩, ⟨plainSample 1, .ok, true⟩], true, .ok, 0, 0⟩,
   ⟨[⟨plainSample 2, .ok, true⟩], false, .ok, 0, 0⟩,
   ⟨[⟨plainSample 3, .failRollback, false⟩, ⟨plainSample 4, .ok, true⟩], true, .ok, 0, 0⟩]

/-- Both parts at this run: three samples are broadcast, each of them committed by then. -/
theorem persistedBatches_persisted :
    (runWriter persistedBatches).broadcasts =
      [⟨plainSample 0, [plainSample 0, plainSample 1]⟩,
        ⟨plainSample 1, [plainSample 0, plainSample 1]⟩,
        ⟨plainSample 4, [plainSample 0, plainSample 1, plainSample 4]⟩] ∧
    (∀ pre post, persistedBatches = pre ++ post → (runWriter pre).BroadcastsPersisted) ∧
    Guarded writerStep Writer.persistsBatch Writer.init persistedBatches := by
  have hpersists : ∀ it ∈ persistedBatches, it.persists = true := by decide
  have hfresh : Guarded writerStep Writer.fresh Writer.init persistedBatches := by
    refine ⟨⟨by decide, by decide⟩, ?_⟩
    rintro w ⟨rfl⟩
    refine ⟨⟨by decide, by decide⟩, ?_⟩
    rintro w ⟨rfl⟩
    exact ⟨⟨by decide, by decide⟩, fun _ _ => trivial⟩
  have hguarded : Guarded writerStep Writer.persistsBatch Writer.init persistedBatches :=
    Guarded.of_forall_mem (fun it hit w (_ : w.begins it = true) => hpersists it hit) _
  have hall := (broadcast_persisted_iff persistedBatches).1 hguarded
  exact ⟨by decide, hall, (broadcast_persisted_iff persistedBatches).2 hfresh hall⟩

/-- One sample whose `INSERT` fails is broadcast all the same. -/
def failedInsert : List Iteration :=
  [⟨[⟨plainSample 0, .failAlone, true⟩], true, .ok, 0, 0⟩]

theorem failedInsert_broadcast : ¬ (runWriter failedInsert).BroadcastsPersisted := by
  have hcalls : (runWriter failedInsert).broadcasts = [⟨plainSample 0, []⟩] := by decide
  intro h
  have hmem := h ⟨plainSample 0, []⟩ (hcalls ▸ List.mem_singleton_self _)
  cases hmem

end TelemetryTestbed.Gateway
