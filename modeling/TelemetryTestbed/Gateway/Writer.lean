import TelemetryTestbed.Lib.Transaction
import TelemetryTestbed.Gateway.Queue

/-!
# One iteration of the writer

The body of the loop of `writer_thread` for a batch that has been popped, as a
function of what SQLite, the allocator and the clock answer in it. The pieces are
named, because the machine of the pipeline takes them one at a time.

The insert loop does not stop at a failure, and `ok` remembers that there was one. `COMMIT` or
`ROLLBACK` follows by `ok`, then the counters, then the broadcast loop over the whole batch;
each of them is a function here, in that order. What becomes of the copies of the payloads is
told in `Payloads`.
-/

namespace TelemetryTestbed.Gateway

open TelemetryTestbed.Lib TelemetryTestbed.Telemetry

/-- A sample of the batch, with the answer to its `INSERT` and whether the text of
its JSON could be allocated. -/
structure Row where
  sample : Sample
  insert : InsertAnswer
  json : Bool
  deriving DecidableEq

/-- What one iteration of `writer_thread` meets: the answer to each insert of its batch, those
to `BEGIN` and `COMMIT`, and the two readings of the clock. -/
structure Iteration where
  rows : List Row
  begin : Bool
  commit : CommitAnswer
  t0 : Int
  t1 : Int

/-- A call of `ws_server_broadcast`: the sample, and the rows committed by then. -/
structure BroadcastCall where
  sample : Sample
  stored : List Sample
  deriving DecidableEq

/-- What `writer_thread` changes: its connection (`committed` lists the rows this
run has added to the table), the statistics, and the broadcasts made so far. -/
structure Writer where
  conn : Conn Sample
  dbRows : Nat
  commitCount : Nat
  commitNsSum : Int
  commitNsMax : Int
  broadcasts : List BroadcastCall

def Writer.init : Writer := ⟨⟨[], none⟩, 0, 0, 0, 0, []⟩

/-- `db_writer_insert_state` for one row; the second part is the flag `ok`. -/
def insertRow (st : Conn Sample × Bool) (s : Sample) (answer : InsertAnswer) :
    Conn Sample × Bool :=
  let (conn, done) := st.1.insert s answer
  (conn, st.2 && done)

/-- The insert loop. -/
def insertRows (st : Conn Sample × Bool) (rows : List Row) : Conn Sample × Bool :=
  rows.foldl (fun st row => insertRow st row.sample row.insert) st

/-- `COMMIT`, whose result is not looked at, or `ROLLBACK`. -/
def endTransaction (st : Conn Sample × Bool) (answer : CommitAnswer) : Conn Sample :=
  if st.2 then (st.1.commit answer).1 else st.1.rollback

/-- The update of the statistics after a batch of `n` rows. -/
def Writer.recordStats (w : Writer) (n : Nat) (t0 t1 : Int) : Writer :=
  let dt := if t0 < t1 then t1 - t0 else 0
  { w with
    dbRows := w.dbRows + n
    commitCount := w.commitCount + 1
    commitNsSum := w.commitNsSum + dt
    commitNsMax := if w.commitNsMax < dt then dt else w.commitNsMax }

/-- One pass of the broadcast loop. -/
def Writer.broadcastSample (w : Writer) (s : Sample) (json : Bool) : Writer :=
  if json then { w with broadcasts := w.broadcasts ++ [⟨s, w.conn.committed⟩] } else w

/-- The body of the loop of `writer_thread`. -/
def writerIteration (w : Writer) (it : Iteration) : Writer :=
  if it.rows = [] then w
  else match w.conn.begin it.begin with
    | (conn, false) => { w with conn }
    | (conn, true) =>
      let w := { w with conn := endTransaction (insertRows (conn, true) it.rows) it.commit }
      let w := w.recordStats it.rows.length it.t0 it.t1
      it.rows.foldl (fun w row => w.broadcastSample row.sample row.json) w

/-- An iteration as a step of a machine that is always enabled. -/
def writerStep (w : Writer) (it : Iteration) : Option Writer := some (writerIteration w it)

end TelemetryTestbed.Gateway
