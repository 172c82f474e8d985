import TelemetryTestbed.Laws.Gateway.Shutdown

/-!
# The machine runs iterations

The laws of the writer speak of whole iterations, and the pipeline takes the same
statements one at a time, between steps of the other parties. Here the two are
matched: between loop heads the machine is somewhere in the next iteration
(`Midway`), and at a loop head its writer is what the iterations so far have made of
the first one (`writer_eq_runWriter`). The samples of every iteration are new ones.

The direction is from the machine to the iterations: every run of the pipeline gives a list of
iterations with the answers that its steps have had, so a law of the writer that holds of all
lists of iterations holds in every run at the loop heads. That the samples are new is what
those laws ask for where they need it.
-/

namespace TelemetryTestbed.Gateway

open TelemetryTestbed.Lib TelemetryTestbed.Telemetry
open scoped List

/-! ## An iteration in parts -/

/-- The batch has something in it, and nothing that is committed. -/
structure Writer.Serves (w : Writer) (batch : List Sample) : Prop where
  nonempty : batch ≠ []
  nodup : batch.Nodup
  fresh : ∀ s ∈ batch, s ∉ w.conn.committed

/-- The connection and the flag `ok` after some rows of the batch. -/
def Writer.inserting (w : Writer) (rows : List Row) : Conn Sample × Bool :=
  insertRows (⟨w.conn.committed, some []⟩, true) rows

/-- The writer after `COMMIT` or `ROLLBACK`. -/
def Writer.ended (w : Writer) (rows : List Row) (commit : CommitAnswer) : Writer :=
  { w with conn := endTransaction (w.inserting rows) commit }

/-- The writer in front of its broadcasts. -/
def Writer.counted (w : Writer) (it : Iteration) : Writer :=
  (w.ended it.rows it.commit).recordStats it.rows.length it.t0 it.t1

/-- The broadcast loop. -/
def Writer.broadcastRows (w : Writer) (rows : List Row) : Writer :=
  rows.foldl (fun w row => w.broadcastSample row.sample row.json) w

theorem writerIteration_eq {w : Writer} {it : Iteration} (hrows : it.rows ≠ [])
    (hbegin : it.begin = true) (htx : w.conn.tx = none) :
    writerIteration w it = (w.counted it).broadcastRows it.rows := by
  rw [writerIteration, if_neg hrows, Conn.begin, if_pos ⟨hbegin, htx⟩]
  rfl

theorem inserting_concat (w : Writer) (rows : List Row) (row : Row) :
    w.inserting (rows ++ [row]) = insertRow (w.inserting rows) row.sample row.insert := by
  rw [Writer.inserting, insertRows, List.foldl_append]
  rfl

/-- The insert loop does not look at the texts. -/
theorem inserting_json (w : Writer) (shown left : List Row) (row : Row) (json : Bool) :
    w.inserting (shown ++ { row with json } :: left) = w.inserting (shown ++ row :: left) := by
  rw [Writer.inserting, Writer.inserting, insertRows, insertRows, List.foldl_append,
    List.foldl_append]
  rfl

theorem counted_json {w : Writer} {it : Iteration} {shown left : List Row} {row : Row}
    (h : it.rows = shown ++ row :: left) (json : Bool) :
    w.counted { it with rows := shown ++ { row with json } :: left } = w.counted it := by
  simp only [Writer.counted, Writer.ended, inserting_json, h, List.length_append,
    List.length_cons]

theorem broadcastRows_concat (w : Writer) (rows : List Row) (row : Row) :
    w.broadcastRows (rows ++ [row]) = (w.broadcastRows rows).broadcastSample row.sample row.json := by
  rw [Writer.broadcastRows, List.foldl_append]
  rfl

/-! ## Somewhere in an iteration -/

/-- The batch has begun, and its rows so far are inserted. -/
def Inserted (w now : Writer) (inserted : List Sample) (ok : Bool) : Prop :=
  w.conn.tx = none ∧ now = { w with conn := now.conn } ∧
    ∃ rows : List Row, rows.map Row.sample = inserted ∧ (now.conn, ok) = w.inserting rows

/-- Where the writer is in the iteration that starts from `w`. -/
def Midway (w now : Writer) : WriterPc → Prop
  | .begin _ batch => now = w ∧ w.Serves batch
  | .insert _ inserted rest _ ok => w.Serves (inserted ++ rest) ∧ Inserted w now inserted ok
  | .endTx _ batch _ ok => w.Serves batch ∧ Inserted w now batch ok
  | .stats _ batch _ => w.Serves batch ∧ w.conn.tx = none ∧
      ∃ (rows : List Row) (commit : CommitAnswer), rows.map Row.sample = batch ∧
        now = w.ended rows commit
  | .broadcast _ rest => w.conn.tx = none ∧
      ∃ (it : Iteration) (shown left : List Row), w.Serves it.samples ∧ it.begin = true ∧
        it.rows = shown ++ left ∧ left.map Row.sample = rest ∧
        now = (w.counted it).broadcastRows shown
  | _ => now = w

variable {g g' : TelemetryGateway} {q : List Sample} {w : Writer}

theorem Midway.signal {now : Writer} {pc : WriterPc} (h : Midway w now pc) :
    Midway w now pc.signal := by
  cases pc <;> exact h

/-- The batch in the hands of the writer is new. -/
theorem Flow.serves {maxn : Nat} {batch : List Sample} (h : Flow g q)
    (hp : g.writerPc = .begin maxn batch) (hne : batch ≠ []) : g.writer.Serves batch := by
  have hsub : g.writer.conn.committed ++ batch <+ g.received := by
    refine .trans (.append_left ?_ _) h.stored
    rw [hp]
    exact (List.sublist_append_left _ _).trans (List.sublist_append_right _ _)
  have hnodup := List.nodup_append.mp (h.received_nodup.sublist hsub)
  exact ⟨hne, hnodup.2.1, fun s hs hc => hnodup.2.2 s hc s hs rfl⟩

/-- The iterations that match a step: none, or the one that ends. -/
def Matches (w : Writer) (g' : TelemetryGateway) : Prop :=
  ∃ its w', exec writerStep w its = some w' ∧ Guarded writerStep Writer.fresh w its ∧
    Midway w' g'.writer g'.writerPc

theorem Matches.stay (h : Midway w g'.writer g'.writerPc) : Matches w g' :=
  ⟨[], w, rfl, trivial, h⟩

theorem Matches.iteration (it : Iteration) (hfresh : w.Serves it.samples)
    (h : Midway (writerIteration w it) g'.writer g'.writerPc) : Matches w g' :=
  ⟨[it], _, rfl, ⟨⟨hfresh.nodup, hfresh.fresh⟩, fun _ _ => trivial⟩, h⟩

/-- A row of a batch whose `BEGIN` fails. -/
def unserved (s : Sample) : Row := ⟨s, .ok, true⟩

theorem map_unserved (batch : List Sample) : (batch.map unserved).map Row.sample = batch := by
  rw [List.map_map]
  exact List.map_id batch

/-! ## The steps -/

/-- An `INSERT` of the machine is one more row of the iteration. -/
theorem Inserted.row {now : Writer} {inserted : List Sample} {ok : Bool}
    (h : Inserted w now inserted ok) (s : Sample) (answer : InsertAnswer) :
    Inserted w { now with conn := (insertRow (now.conn, ok) s answer).1 } (inserted ++ [s])
      (insertRow (now.conn, ok) s answer).2 := by
  obtain ⟨htx, hnow, rows, hrows, hconn⟩ := h
  refine ⟨htx, by rw [hnow], rows ++ [⟨s, answer, true⟩], ?_, ?_⟩
  · rw [List.map_append, hrows]
    rfl
  · rw [inserting_concat, ← hconn]

theorem midway_broadcast {maxn : Nat} {now : Writer} {s : Sample} {rest : List Sample}
    (h : Midway w now (.broadcast maxn (s :: rest))) (json : Bool) :
    Midway w (now.broadcastSample s json) (.broadcast maxn rest) := by
  obtain ⟨htx, it, shown, left, hserves, hbegin, hrows, hleft, rfl⟩ := h
  obtain ⟨row, left, rfl, rfl, rfl⟩ := List.map_eq_cons_iff.mp hleft
  refine ⟨htx, { it with rows := shown ++ { row with json } :: left },
    shown ++ [{ row with json }], left, ?_, hbegin, ?_, rfl, ?_⟩
  · have hsamples : Iteration.samples { it with rows := shown ++ { row with json } :: left } =
        it.samples := by
      simp only [Iteration.samples, hrows, List.map_append, List.map_cons]
    rw [hsamples]
    exact hserves
  · rw [List.append_assoc]
    rfl
  · rw [counted_json hrows, broadcastRows_concat]

/-- A step of the writer is a part of an iteration, or ends one. -/
theorem writer_matches {c : WriterChoice} (hF : Flow g q) (h : Midway w g.writer g.writerPc)
    (hstep : g.writerThreadStep c = some g') : Matches w g' := by
  obtain ⟨q', hF'⟩ := hF.writer_step hstep
  unfold TelemetryGateway.writerThreadStep at hstep
  split at hstep
  next hp =>
    cases hstep
    rw [hp] at h
    exact Matches.stay h
  next hp =>
    cases hstep
    rw [hp] at h
    exact Matches.stay h
  next maxn hp =>
    cases hstep
    rw [hp] at h
    apply Matches.stay
    cases g.running <;> exact h
  next maxn hp =>
    rw [hp] at h
    split at hstep
    · cases hstep
      exact Matches.stay h
    · cases hstep
      apply Matches.stay
      unfold TelemetryGateway.popped at hF' ⊢
      dsimp only at hF' ⊢
      split
      next => exact h
      next hne =>
        rw [if_neg hne] at hF'
        exact ⟨h, h ▸ hF'.serves rfl hne⟩
  next maxn woken hp =>
    rw [hp] at h
    split at hstep
    · cases hstep
      exact Matches.stay h
    · cases hstep
  next maxn woken hp =>
    cases hstep
    rw [hp] at h
    exact Matches.stay h
  next maxn batch t0 hp =>
    rw [hp] at h
    obtain ⟨hnow, hserves⟩ := h
    unfold Conn.begin at hstep
    split at hstep
    next conn hbegin =>
      split at hbegin
      next hand =>
        cases hbegin
        cases hstep
        rw [hnow] at hand ⊢
        exact Matches.stay ⟨hserves, hand.2, rfl, [], rfl, rfl⟩
      next => cases hbegin
    next => cases hstep
  next maxn batch hp =>
    cases hstep
    rw [hp] at h
    obtain ⟨hnow, hserves⟩ := h
    let it : Iteration := ⟨batch.map unserved, false, .ok, 0, 0⟩
    have hsamples : it.samples = batch := map_unserved batch
    have hskip : writerIteration w it = w := by
      apply writerIteration_skips
      rw [Writer.begins, Bool.and_false, Bool.false_and]
    apply Matches.iteration it (hsamples ▸ hserves)
    rw [hskip]
    exact hnow
  next maxn inserted s rest t0 ok answer hp =>
    cases hstep
    rw [hp] at h
    obtain ⟨hserves, hins⟩ := h
    refine Matches.stay ⟨?_, hins.row s answer⟩
    rw [List.append_assoc]
    exact hserves
  next maxn inserted t0 ok hp =>
    cases hstep
    rw [hp] at h
    obtain ⟨hserves, hins⟩ := h
    rw [List.append_nil] at hserves
    exact Matches.stay ⟨hserves, hins⟩
  next maxn batch t0 ok answer hp =>
    cases hstep
    rw [hp] at h
    obtain ⟨hserves, htx, hnow, rows, hrows, hconn⟩ := h
    refine Matches.stay ⟨hserves, htx, rows, answer, hrows, ?_⟩
    rw [Writer.ended, ← hconn, hnow]
  next maxn batch t0 t1 hp =>
    cases hstep
    rw [hp] at h
    obtain ⟨hserves, htx, rows, commit, hrows, hnow⟩ := h
    subst hrows
    refine Matches.stay ⟨htx, ⟨rows, true, commit, t0, t1⟩, [], rows, hserves, rfl, rfl, rfl, ?_⟩
    show Writer.recordStats _ (rows.map Row.sample).length t0 t1 = _
    rw [hnow, List.length_map]
    rfl
  next maxn s rest hp =>
    cases hstep
    rw [hp] at h
    exact Matches.stay (midway_broadcast h true)
  next maxn s rest hp =>
    cases hstep
    rw [hp] at h
    exact Matches.stay (midway_broadcast h false)
  next maxn hp =>
    cases hstep
    rw [hp] at h
    obtain ⟨htx, it, shown, left, hserves, hbegin, hrows, hleft, hnow⟩ := h
    rw [List.map_eq_nil_iff.mp hleft, List.append_nil] at hrows
    have hne : it.rows ≠ [] := fun e => hserves.nonempty (by rw [Iteration.samples, e]; rfl)
    apply Matches.iteration it hserves
    rw [writerIteration_eq hne hbegin htx, hrows]
    exact hnow
  next => cases hstep

/-- The other parties leave the writer where it is. -/
theorem step_matches {a : GatewayAction} (hF : Flow g q) (h : Midway w g.writer g.writerPc)
    (hstep : g.step a = some g') : Matches w g' := by
  cases a with
  | message c =>
    obtain ⟨hpc, ⟨hwriter, -, -⟩, -⟩ := messageStep_cases hstep
    apply Matches.stay
    rw [hwriter]
    rcases hpc with ⟨-, hpc, -, -⟩ | ⟨_, _, -, -, hpc, -⟩
    · exact hpc ▸ h
    · exact hpc ▸ h.signal
  | writer c => exact writer_matches hF h hstep
  | stop =>
    obtain ⟨hwriter, hpc⟩ := stopStep_writer hstep
    apply Matches.stay
    rw [hwriter]
    rcases hpc with hpc | hpc
    · exact hpc ▸ h
    · exact hpc ▸ h.signal

/-! ## The runs -/

/-- Every run of the machine is in the middle of some iteration after others, each
with new samples. -/
theorem midway_of_run {batchSize : Int} {as : List GatewayAction}
    (h : exec TelemetryGateway.step (.init batchSize) as = some g) :
    ∃ its, Guarded writerStep Writer.fresh Writer.init its ∧
      Midway (runWriter its) g.writer g.writerPc := by
  obtain ⟨its, w, hits, hfresh, -, hmid⟩ := exec_simulates
    (R := fun g w => (∃ q, Flow g q) ∧ Midway w g.writer g.writerPc)
    (fun g a g' w ⟨⟨q, hF⟩, hmid⟩ hstep => by
      obtain ⟨its, w', hits, hfresh, hmid'⟩ := step_matches hF hmid hstep
      exact ⟨its, w', hits, hfresh, hF.step hstep, hmid'⟩)
    ⟨⟨[], Flow.init batchSize⟩, rfl⟩ h
  rw [exec_writerStep] at hits
  cases hits
  exact ⟨its, hfresh, hmid⟩

/-- At a loop head the writer is what whole iterations have made of it. -/
theorem writer_eq_runWriter {batchSize : Int} {as : List GatewayAction} {maxn : Nat}
    (h : exec TelemetryGateway.step (.init batchSize) as = some g)
    (hp : g.writerPc = .head maxn) :
    ∃ its, Guarded writerStep Writer.fresh Writer.init its ∧ g.writer = runWriter its := by
  obtain ⟨its, hfresh, hmid⟩ := midway_of_run h
  rw [hp] at hmid
  exact ⟨its, hfresh, hmid⟩

end TelemetryTestbed.Gateway
