import TelemetryTestbed.Lib.Run
import TelemetryTestbed.Gateway.Writer

/-!
# The pipeline as a machine

`on_message`, `writer_thread` and `telemetry_gateway_stop` take turns, one shared
access, critical section or database statement at a time. The MQTT library calls
`on_message` from its one network thread, so a call ends before the next begins,
and `mqtt_client_close` waits for that thread. An action names the party that
moves and what its environment answers.

`received` are the messages `on_message` has decoded and `enqueued` the samples
`queue_push` has linked in, both in order; `discarded` is what the sweep of the
queue frees. The three are bookkeeping.

Nothing is assumed of the database but that it answers: every statement succeeds or fails as
the action says, and an `INSERT` that fails may have rolled the transaction back. The samples
are told apart by the number of their message, which no branch looks at.
-/

namespace TelemetryTestbed.Gateway

open TelemetryTestbed.Lib TelemetryTestbed.Telemetry

/-- Where `on_message` is, with the variables of the call that later steps read. -/
inductive MessagePc
  | idle
  /-- The message has passed the test of `running` and of the topic. -/
  | entered (payload : Bytes)
  | unpack (payload : Bytes)
  /-- `malloc` for the copy of the payload -/
  | copyRaw (serial : Nat) (st : PbTelemetryState) (now : Int64) (payload : Bytes)
  /-- `calloc` in `queue_push` -/
  | alloc (s : Sample)
  | link (r : Addr) (s : Sample)

/-- Where `writer_thread` is; `maxn` is the most it pops at once. -/
inductive WriterPc
  /-- `calloc` of the batch -/
  | start
  /-- `while (g->running)` -/
  | head (maxn : Nat)
  /-- `queue_pop_batch`, before it looks at the queue -/
  | pop (maxn : Nat)
  /-- in `pthread_cond_wait`; `woken` says that a signal has come -/
  | waiting (maxn : Nat) (woken : Bool)
  /-- `BEGIN IMMEDIATE` -/
  | begin (maxn : Nat) (batch : List Sample)
  /-- the insert loop: what it has inserted, and what it has left -/
  | insert (maxn : Nat) (done rest : List Sample) (t0 : Int) (ok : Bool)
  /-- `COMMIT` or `ROLLBACK` -/
  | endTx (maxn : Nat) (batch : List Sample) (t0 : Int) (ok : Bool)
  | stats (maxn : Nat) (batch : List Sample) (t0 : Int)
  /-- the broadcast loop, with what it has left -/
  | broadcast (maxn : Nat) (rest : List Sample)
  | done

/-- Where `telemetry_gateway_stop` is, from the write of `running` to its return. -/
inductive StopPc
  | idle
  /-- `pthread_cond_broadcast` -/
  | wake
  | joinWriter
  | closeMqtt
  /-- the sweep of the queue -/
  | sweep
  | returned
  deriving DecidableEq

/-- The fields of `telemetry_gateway_t` that the pipeline uses, the program counters of its
three threads, and three ghosts: the samples that were received, enqueued and discarded, in
order. -/
structure TelemetryGateway where
  running : Bool
  /-- `g->batch_size` -/
  batchSize : Int
  queue : Queue
  rxMsgs : Nat
  rxBytes : Nat
  writer : Writer
  message : MessagePc
  writerPc : WriterPc
  stop : StopPc
  received : List Sample
  enqueued : List Sample
  discarded : List Sample

/-- The gateway as `telemetry_gateway_start` leaves it. -/
def TelemetryGateway.init (batchSize : Int) : TelemetryGateway where
  running := true
  batchSize
  queue := .empty
  rxMsgs := 0
  rxBytes := 0
  writer := .init
  message := .idle
  writerPc := .start
  stop := .idle
  received := []
  enqueued := []
  discarded := []

/-- What the environment answers to one step of `on_message`: the broker, the decoder or the
allocator. -/
inductive MessageChoice
  /-- A message arrives. -/
  | arrives (topic payload : Bytes)
  | go
  /-- The message is decoded, at the time `now`. -/
  | unpacked (st : PbTelemetryState) (now : Int64)
  | allocated (r : Addr)
  | failed

/-- What the environment answers to one step of `writer_thread`: SQLite, the allocator, the
clock or the scheduler. -/
inductive WriterChoice
  | go
  /-- An allocation, or the `BEGIN`, fails. -/
  | failed
  /-- A spurious wake-up. -/
  | spurious
  | began (t0 : Int)
  | inserted (answer : InsertAnswer)
  | committed (answer : CommitAnswer)
  | time (t1 : Int)

/-- A signal on `q_cv`. -/
def WriterPc.signal : WriterPc → WriterPc
  | .waiting maxn _ => .waiting maxn true
  | pc => pc

namespace TelemetryGateway

def messageStep (g : TelemetryGateway) (c : MessageChoice) : Option TelemetryGateway :=
  match g.message, c with
  | .idle, .arrives topic payload =>
    if g.stop = .sweep ∨ g.stop = .returned then none
    else some { g with message :=
      if g.running && topic = telemetryTopicState then .entered payload else .idle }
  | .entered payload, .go =>
    some { g with
      rxMsgs := g.rxMsgs + 1, rxBytes := g.rxBytes + payload.length, message := .unpack payload }
  | .unpack _, .failed => some { g with message := .idle }
  | .unpack payload, .unpacked st now =>
    some { g with message := .copyRaw g.received.length st now payload }
  | .copyRaw serial st now payload, .go =>
    let s : Sample :=
      ⟨serial, telemetryStateOf st now (if payload = [] then none else some payload)⟩
    some { g with message := .alloc s, received := g.received ++ [s] }
  | .copyRaw serial st now _, .failed =>
    let s : Sample := ⟨serial, telemetryStateOf st now none⟩
    some { g with message := .alloc s, received := g.received ++ [s] }
  | .alloc _, .failed => some { g with message := .idle }
  | .alloc s, .allocated r =>
    if g.queue.nodes r = none then some { g with message := .link r s } else none
  | .link r s, .go =>
    some { g with
      message := .idle
      queue := g.queue.push r s
      writerPc := g.writerPc.signal
      enqueued := g.enqueued ++ [s] }
  | _, _ => none

/-- The second part of `queue_pop_batch`, and what `writer_thread` does with it. -/
def popped (g : TelemetryGateway) (maxn : Nat) : TelemetryGateway :=
  let (batch, queue) := g.queue.popBatch maxn
  { g with
    queue
    writerPc := if batch = [] then .head maxn else .begin maxn batch }

/-- `BATCH` of `writer_thread`. -/
def batch (g : TelemetryGateway) : Nat := if 0 < g.batchSize then g.batchSize.toNat else 50

def writerThreadStep (g : TelemetryGateway) (c : WriterChoice) : Option TelemetryGateway :=
  match g.writerPc, c with
  | .start, .go => some { g with writerPc := .head g.batch }
  | .start, .failed => some { g with writerPc := .head 1 }
  | .head maxn, .go => some { g with writerPc := if g.running then .pop maxn else .done }
  | .pop maxn, .go =>
    if g.running ∧ g.queue.head = none then some { g with writerPc := .waiting maxn false }
    else some (g.popped maxn)
  | .waiting maxn woken, .go => if woken then some { g with writerPc := .pop maxn } else none
  | .waiting maxn _, .spurious => some { g with writerPc := .pop maxn }
  | .begin maxn batch, .began t0 =>
    match g.writer.conn.begin true with
    | (conn, true) => some { g with
        writer := { g.writer with conn }, writerPc := .insert maxn [] batch t0 true }
    | (_, false) => none
  | .begin maxn _, .failed => some { g with writerPc := .head maxn }
  | .insert maxn done (s :: rest) t0 ok, .inserted answer =>
    let (conn, ok) := insertRow (g.writer.conn, ok) s answer
    some { g with
      writer := { g.writer with conn }, writerPc := .insert maxn (done ++ [s]) rest t0 ok }
  | .insert maxn done [] t0 ok, .go => some { g with writerPc := .endTx maxn done t0 ok }
  | .endTx maxn batch t0 ok, .committed answer =>
    some { g with
      writer := { g.writer with conn := endTransaction (g.writer.conn, ok) answer }
      writerPc := .stats maxn batch t0 }
  | .stats maxn batch t0, .time t1 =>
    some { g with
      writer := g.writer.recordStats batch.length t0 t1, writerPc := .broadcast maxn batch }
  | .broadcast maxn (s :: rest), .go =>
    some { g with
      writer := g.writer.broadcastSample s true, writerPc := .broadcast maxn rest }
  | .broadcast maxn (_ :: rest), .failed => some { g with writerPc := .broadcast maxn rest }
  | .broadcast maxn [], .go => some { g with writerPc := .head maxn }
  | _, _ => none

def stopStep (g : TelemetryGateway) : Option TelemetryGateway :=
  match g.stop with
  | .idle => some { g with running := false, stop := .wake }
  | .wake => some { g with writerPc := g.writerPc.signal, stop := .joinWriter }
  | .joinWriter =>
    match g.writerPc with
    | .done => some { g with stop := .closeMqtt }
    | _ => none
  | .closeMqtt =>
    match g.message with
    | .idle => some { g with stop := .sweep }
    | _ => none
  | .sweep => some { g with
      discarded := g.queue.contents
      queue := .empty
      stop := .returned }
  | .returned => none

end TelemetryGateway

/-- Which of the three threads moves, and what the environment answers to it. -/
inductive GatewayAction
  | message (c : MessageChoice)
  | writer (c : WriterChoice)
  | stop

def TelemetryGateway.step (g : TelemetryGateway) : GatewayAction → Option TelemetryGateway
  | .message c => g.messageStep c
  | .writer c => g.writerThreadStep c
  | .stop => g.stopStep

end TelemetryTestbed.Gateway
