import TelemetryTestbed.Gateway.Queue
import TelemetryTestbed.Lib.Monitor
import TelemetryTestbed.Lib.Run

/-!
# The queue between its threads

`queue_push`, `queue_pop_batch` and `telemetry_gateway_stop` one access at a time, also
inside their critical sections: `running` is not guarded by the mutex, so its test in
`queue_pop_batch` may stand on either side of the store in `telemetry_gateway_stop`.
Any number of calls of `queue_push` may be under way.

The thread that waits may be woken by nobody, as POSIX allows it, and a signal that meets no
waiting thread is lost. Which of the enabled threads moves next is left open, and so is how
many calls of `queue_push` there are.
-/

namespace TelemetryTestbed.Gateway

open TelemetryTestbed.Lib

/-- The threads; a call of `queue_push` is known by a number. -/
inductive Party
  | push (i : Nat)
  | writer
  | stop
  deriving DecidableEq

/-- Where a call of `queue_push` is, one access of the shared memory a step. -/
inductive PushPc
  | idle
  | lock (s : Sample)
  /-- the new node goes behind the last one -/
  | link (s : Sample)
  /-- `pthread_cond_signal` -/
  | signal
  | unlock

/-- Where `writer_thread` is in its loop and in `queue_pop_batch`. -/
inductive PopPc
  /-- `while (g->running)` of `writer_thread` -/
  | head
  | lock
  /-- `g->running` in the condition of the first loop -/
  | testRunning
  /-- `g->q_head == NULL` in it -/
  | testHead
  /-- `pthread_cond_wait` -/
  | wait
  | blocked
  /-- the second loop -/
  | take
  | unlock (out : List Sample)
  /-- `queue_pop_batch` has returned, with so many samples. -/
  | returned (out : List Sample)
  | done

/-- Where `telemetry_gateway_stop` is on its way to the join of the writer. -/
inductive StopperPc
  | idle
  | lock
  /-- `pthread_cond_broadcast` -/
  | broadcast
  | unlock
  | joinWriter
  | joined
  deriving DecidableEq

/-- The queue, the monitor that guards it, and the threads that use it: any number of pushers,
the writer and the one that stops it. -/
structure QueueThreads where
  running : Bool
  /-- the `max` of `queue_pop_batch` -/
  maxn : Nat
  queue : Queue
  monitor : Monitor Party
  push : Nat → PushPc
  pop : PopPc
  stop : StopperPc

/-- The threads as they start; `batch` says whether `writer_thread` has got its batch. -/
def QueueThreads.init (batchSize : Int) (batch : Bool) : QueueThreads where
  running := true
  maxn := if batch then (if 0 < batchSize then batchSize.toNat else 50) else 1
  queue := .empty
  monitor := .free
  push := fun _ => .idle
  pop := .head
  stop := .idle

/-- Who moves; a new node gets an address, and a wait may end without a signal. -/
inductive QueueAction
  | call (i : Nat) (s : Sample)
  | push (i : Nat)
  | linked (i : Nat) (r : Addr)
  | pop
  | spurious
  | stop

namespace QueueThreads

def setPush (g : QueueThreads) (i : Nat) (pc : PushPc) : QueueThreads :=
  { g with push := Function.update g.push i pc }

def pushStep (g : QueueThreads) (i : Nat) : Option QueueThreads :=
  match g.push i with
  | .lock s =>
    (g.monitor.lock (.push i)).map fun monitor => { g.setPush i (.link s) with monitor }
  | .signal => some { g.setPush i .unlock with monitor := g.monitor.signal .writer }
  | .unlock => some { g.setPush i .idle with monitor := g.monitor.unlock }
  | _ => none

/-- The critical section of `queue_push` up to the signal, for the node at `r`. -/
def linkStep (g : QueueThreads) (i : Nat) (r : Addr) : Option QueueThreads :=
  match g.push i with
  | .link s =>
    if g.queue.nodes r = none then
      some { g.setPush i .signal with queue := g.queue.push r s }
    else none
  | _ => none

def callStep (g : QueueThreads) (i : Nat) (s : Sample) : Option QueueThreads :=
  match g.push i with
  | .idle => some (g.setPush i (.lock s))
  | _ => none

def popStep (g : QueueThreads) : Option QueueThreads :=
  match g.pop with
  | .head => some { g with pop := if g.running then .lock else .done }
  | .lock => (g.monitor.lock .writer).map fun monitor => { g with monitor, pop := .testRunning }
  | .testRunning => some { g with pop := if g.running then .testHead else .take }
  | .testHead => some { g with pop := if g.queue.head = none then .wait else .take }
  | .wait => some { g with monitor := g.monitor.wait .writer, pop := .blocked }
  | .blocked =>
    (g.monitor.resume .writer false).map fun monitor => { g with monitor, pop := .testRunning }
  | .take =>
    some { g with
      queue := (Queue.popBatch g.maxn g.queue).2
      pop := .unlock (Queue.popBatch g.maxn g.queue).1 }
  | .unlock out => some { g with monitor := g.monitor.unlock, pop := .returned out }
  | .returned _ => some { g with pop := .head }
  | .done => none

def spuriousStep (g : QueueThreads) : Option QueueThreads :=
  match g.pop with
  | .blocked =>
    (g.monitor.resume .writer true).map fun monitor => { g with monitor, pop := .testRunning }
  | _ => none

def stopStep (g : QueueThreads) : Option QueueThreads :=
  match g.stop with
  | .idle => some { g with running := false, stop := .lock }
  | .lock => (g.monitor.lock .stop).map fun monitor => { g with monitor, stop := .broadcast }
  | .broadcast => some { g with monitor := g.monitor.broadcast, stop := .unlock }
  | .unlock => some { g with monitor := g.monitor.unlock, stop := .joinWriter }
  | .joinWriter =>
    match g.pop with
    | .done => some { g with stop := .joined }
    | _ => none
  | .joined => none

def step (g : QueueThreads) : QueueAction → Option QueueThreads
  | .call i s => g.callStep i s
  | .push i => g.pushStep i
  | .linked i r => g.linkStep i r
  | .pop => g.popStep
  | .spurious => g.spuriousStep
  | .stop => g.stopStep

end QueueThreads

end TelemetryTestbed.Gateway
