import TelemetryTestbed.Gateway.Queue
import TelemetryTestbed.Lib.Mutex

/-!
# The queue, statement by statement

`queue_push` and `queue_pop_batch` between lock and unlock, called by any number of
threads. A call of `queue_pop_batch` that has to wait gives the lock back, and takes it
again as a call of its own; the condition variable is the subject of another module.

Three things are bookkeeping: the values `q_len` has had, whether it was ever decremented
at zero, and the log of what the calls did, in the order of their unlocks.

What runs outside of the lock has no access to the queue, so the node of a push, which is
allocated and filled there, comes onto the heap with the first statement of its section. Its
address is any that no node of the queue has, so freed addresses come back.
-/

namespace TelemetryTestbed.Gateway

open TelemetryTestbed.Lib

/-- What `q_mu` protects: the queue, with two ghosts beside it, every value `q_len` has had and
whether a pop has counted it down below zero. -/
structure FifoMem where
  queue : Queue
  lens : List Nat
  underflow : Bool

def FifoMem.init : FifoMem := ⟨.empty, [0], false⟩

/-- The variables of `queue_pop_batch`; `waits` is the condition of its first loop. -/
structure FifoLocals where
  waits : Bool
  q : Option Addr
  n : Nat
  out : List Sample

def FifoLocals.init : FifoLocals := ⟨false, none, 0, []⟩

abbrev FifoStatement := Statement FifoMem FifoLocals

/-- An assignment to the queue, but for `q_len`. -/
def assign (f : Queue → Queue) : FifoStatement := fun x =>
  ({ x.1 with queue := f x.1.queue }, x.2)

/-- `g->q_len = len;` -/
def FifoMem.setLen (m : FifoMem) (len : Nat) : FifoMem :=
  { m with queue := { m.queue with len }, lens := m.lens ++ [len] }

/-- `queue_push`, with the node it has allocated and filled. -/
def queuePush (r : Addr) (s : Sample) : List FifoStatement :=
  [assign fun q => { q with nodes := Function.update q.nodes r (some ⟨s, none⟩) },
    assign fun q => match q.tail with
      | some t =>
        { q with
          nodes := Function.update q.nodes t ((q.nodes t).map fun n => { n with next := some r }) }
      | none => { q with head := some r },
    assign fun q => { q with tail := some r },
    fun x => (x.1.setLen (x.1.queue.len + 1), x.2),
    assign fun q => { q with lenMax := if q.len > q.lenMax then q.len else q.lenMax }]

/-- A statement in the body of the second loop, with the node that the round has taken. -/
def inRound (f : Addr → FifoStatement) : FifoStatement := fun x =>
  match x.2.q with
  | some r => f r x
  | none => x

/-- A round of the second loop of `queue_pop_batch`. Where its condition fails there is no
node, and nothing else is done. -/
def popRound (max : Nat) : List FifoStatement :=
  [fun x => (x.1, { x.2 with q := if !x.2.waits && x.2.n < max then x.1.queue.head else none }),
    inRound fun r => assign fun q => match q.nodes r with
      | some node => { q with head := node.next }
      | none => q,
    inRound fun _ => assign fun q => { q with tail := if q.head = none then none else q.tail },
    inRound fun _ x =>
      ({ x.1.setLen (x.1.queue.len - 1) with
          underflow := x.1.underflow || x.1.queue.len = 0 }, x.2),
    inRound fun r x => match x.1.queue.nodes r with
      | some node => (x.1, { x.2 with n := x.2.n + 1, out := x.2.out ++ [node.val] })
      | none => x,
    inRound fun r => assign fun q => { q with nodes := Function.update q.nodes r none }]

/-- `queue_pop_batch`; `running` is what it reads of `g->running`. After `max` rounds the
condition of the second loop fails. -/
def queuePopBatch (max : Nat) (running : Bool) : List FifoStatement :=
  (fun x => (x.1, { x.2 with waits := running && x.1.queue.head = none })) ::
    (List.replicate max (popRound max)).flatten

/-- A call of `queue_push` or of `queue_pop_batch` that a thread makes under `q_mu`. -/
inductive QueueCall
  | push (r : Addr) (s : Sample)
  | pop (max : Nat) (running : Bool)

def QueueCall.code (call : QueueCall) : CriticalSection FifoMem FifoLocals where
  locals := .init
  body := match call with
    | .push r s => queuePush r s
    | .pop max running => queuePopBatch max running

/-- The node of a push is not one that the queue has. -/
def QueueCall.admissible (m : FifoMem) : QueueCall → Bool
  | .push r _ => (m.queue.nodes r).isNone
  | .pop _ _ => true

/-- What a call has done, as the log of the machine keeps it in the order of the calls. -/
inductive QueueOp
  | pushed (s : Sample)
  /-- `calloc` has failed. -/
  | failed (s : Sample)
  | popped (max : Nat) (out : List Sample)
  | waited

/-- The entry in the log for a call that ends with these variables. -/
def QueueCall.done (call : QueueCall) (x : FifoLocals) : QueueOp :=
  match call with
  | .push _ s => .pushed s
  | .pop max _ => if x.waits then .waited else .popped max x.out

/-- The queue under `q_mu` with any number of threads, and the log of what the calls have done.
-/
structure Fifo (ι : Type) where
  lock : Locked ι QueueCall FifoMem FifoLocals
  log : List QueueOp

/-- A thread fails to get a node, takes the lock for a call, runs one statement of it, or gives
the lock back. -/
inductive FifoAction (ι : Type)
  /-- `queue_push` of a thread, which gets no node. -/
  | allocFailed (i : ι) (s : Sample)
  | lock (i : ι) (call : QueueCall)
  | statement (i : ι)
  | unlock (i : ι)

namespace Fifo

variable {ι : Type}

def init : Fifo ι := ⟨.init .init, []⟩

variable [DecidableEq ι]

def step (s : Fifo ι) : FifoAction ι → Option (Fifo ι)
  | .allocFailed i sample =>
    match s.lock.inside i with
    | none => some { s with log := s.log ++ [.failed sample] }
    | some _ => none
  | .lock i call =>
    if call.admissible s.lock.mem then
      (s.lock.enter QueueCall.code i call).map fun lock => { s with lock }
    else none
  | .statement i => (s.lock.statement i).map fun lock => { s with lock }
  | .unlock i => (s.lock.leave i).map fun (lock, call, x) =>
    { lock, log := s.log ++ [call.done x] }

end Fifo

end TelemetryTestbed.Gateway
