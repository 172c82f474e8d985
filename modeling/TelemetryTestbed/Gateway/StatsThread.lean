import TelemetryTestbed.Gateway.Pipeline
import TelemetryTestbed.Gateway.Stats

/-!
# The statistics thread beside the pipeline

`stats_thread` reads the clock, then the counters under `stats_mu` and the length of the
queue under `q_mu`, and the pipeline moves in between. Every line it prints is the
difference of what it read in two successive rounds.

The clock is an action of its own and only goes forward; the thread may be anywhere in its
round when the pipeline moves, and the two sections of a round are two steps. The sleep
between the rounds is left out: it only means that other steps come first.
-/

namespace TelemetryTestbed.Gateway

open TelemetryTestbed.Lib

/-- Where `stats_thread` is, with what it has read in this round. -/
inductive StatsPc
  /-- `usleep` -/
  | asleep
  /-- `now_ns` has been taken. -/
  | counters (nowNs : Int)
  /-- The counters have been copied. -/
  | queue (read : StatsSnapshot)
  | done

/-- The gateway with `stats_thread` beside its other threads, the clock, and the lines that were
printed so far. -/
structure Monitored where
  gateway : TelemetryGateway
  /-- `CLOCK_MONOTONIC`. -/
  clock : Int
  pc : StatsPc
  /-- The `last_` variables. -/
  last : StatsSnapshot
  /-- The lines so far: what a round was compared with, and what it read. -/
  lines : List (StatsSnapshot × StatsSnapshot)

/-- The thread as it is created, at the time `startMonoNs`. -/
def Monitored.init (batchSize startMonoNs : Int) : Monitored :=
  ⟨.init batchSize, startMonoNs, .asleep, .start startMonoNs, []⟩

/-- A thread of the gateway moves, time passes, or `stats_thread` takes a step. -/
inductive MonitoredAction
  | gateway (a : GatewayAction)
  /-- Time passes. -/
  | tick (ns : Nat)
  | stats

namespace Monitored

/-- The critical section of `stats_mu`. -/
def readCounters (g : TelemetryGateway) (nowNs : Int) : StatsSnapshot where
  monoNs := nowNs
  rxMsgs := g.rxMsgs
  rxBytes := g.rxBytes
  dbRows := g.writer.dbRows
  commitCount := g.writer.commitCount
  commitNsSum := g.writer.commitNsSum
  commitNsMax := g.writer.commitNsMax
  qLen := 0
  qMax := 0

def statsStep (m : Monitored) : Option Monitored :=
  match m.pc with
  | .asleep => some { m with pc := if m.gateway.running then .counters m.clock else .done }
  | .counters nowNs => some { m with pc := .queue (readCounters m.gateway nowNs) }
  | .queue read =>
    let now := { read with qLen := m.gateway.queue.len, qMax := m.gateway.queue.lenMax }
    some { m with pc := .asleep, last := now, lines := m.lines ++ [(m.last, now)] }
  | .done => none

/-- `telemetry_gateway_stop` is at its joins, and `stats_thread` has not returned. -/
def joining (m : Monitored) : Bool :=
  match m.gateway.stop, m.pc with
  | .joinWriter, .done => false
  | .joinWriter, _ => true
  | _, _ => false

def gatewayStep (m : Monitored) (a : GatewayAction) : Option Monitored :=
  match a with
  | .stop =>
    if m.joining then none else (m.gateway.step .stop).map fun gateway => { m with gateway }
  | a => (m.gateway.step a).map fun gateway => { m with gateway }

def step (m : Monitored) : MonitoredAction → Option Monitored
  | .gateway a => m.gatewayStep a
  | .tick ns => some { m with clock := m.clock + ns }
  | .stats => m.statsStep

end Monitored

end TelemetryTestbed.Gateway
