import TelemetryTestbed.Lib.Heap
import TelemetryTestbed.Gateway.Pipeline

/-!
# The copies of the payloads

`on_message` takes a copy of each payload from the allocator, and the pointer to it
goes with the sample from hand to hand: through the queue to the writer, where the
`INSERT` reads it. Whoever drops a sample releases the copy. The machine is that of
the pipeline with the copies on the heap; released addresses are handed out again,
and nobody sets a pointer back to NULL.

A copy has the address the allocator answers, and the pointer of a sample is that address or
NULL, where there was no memory. `fault` is set by a release of what is not there and by a
read of another payload than the sample's; it is bookkeeping.
-/

namespace TelemetryTestbed.Gateway

open TelemetryTestbed.Lib TelemetryTestbed.Telemetry

/-- The gateway with the heap that `on_message` copies the payloads to: each sample keeps the
address of its copy, and an address that was freed may be handed out again. -/
structure Payloads where
  gateway : TelemetryGateway
  /-- What the addresses that are handed out hold. -/
  copies : Addr → Option Bytes
  /-- `s.raw` of the sample of this number. -/
  raw : Nat → Option Addr
  /-- A copy was released that was not there, or the `INSERT` did not find the
  payload of its sample. -/
  fault : Bool

def Payloads.init (batchSize : Int) : Payloads :=
  ⟨.init batchSize, fun _ => none, fun _ => none, false⟩

namespace Payloads

/-- `s.raw`, for a sample that has just been built. -/
def setRaw (m : Payloads) (serial : Nat) (p : Option Addr) : Payloads :=
  { m with raw := Function.update m.raw serial p }

/-- `malloc`, and `memcpy` of the payload. -/
def copyRaw (m : Payloads) (serial : Nat) (payload : Bytes) (r : Addr) : Payloads :=
  { m.setRaw serial (some r) with copies := Function.update m.copies r (some payload) }

/-- `if(s->raw) free(s->raw);` -/
def release (m : Payloads) (s : Sample) : Payloads :=
  match m.raw s.serial with
  | none => m
  | some r => { m with
      copies := Function.update m.copies r none
      fault := m.fault || (m.copies r).isNone }

/-- `db_writer_insert_state` reads the copy that it binds. -/
def readRaw (m : Payloads) (s : Sample) : Payloads :=
  { m with fault := m.fault || (m.raw s.serial).bind m.copies ≠ s.state.raw }

/-- What `on_message` does to the copies; `r` is what `malloc` answers. -/
def messageEffect (m : Payloads) (c : MessageChoice) (r : Addr) : Option Payloads :=
  match m.gateway.message, c with
  | .copyRaw serial _ _ payload, .go =>
    if payload = [] then some (m.setRaw serial none)
    else if m.copies r = none then some (m.copyRaw serial payload r)
    else none
  | .copyRaw serial _ _ _, .failed => some (m.setRaw serial none)
  | .alloc s, .failed => some (m.release s)
  | _, _ => some m

/-- What `writer_thread` does to them. -/
def writerEffect (m : Payloads) (c : WriterChoice) : Payloads :=
  match m.gateway.writerPc, c with
  | .begin _ batch, .failed => batch.foldl release m
  | .insert _ _ (s :: _) _ _, .inserted _ => m.readRaw s
  | .broadcast _ (s :: _), _ => m.release s
  | _, _ => m

/-- What the sweep of `telemetry_gateway_stop` does to them. -/
def stopEffect (m : Payloads) : Payloads :=
  match m.gateway.stop with
  | .sweep => m.gateway.queue.contents.foldl release m
  | _ => m

def effect (m : Payloads) : GatewayAction → Addr → Option Payloads
  | .message c, r => m.messageEffect c r
  | .writer c, _ => some (m.writerEffect c)
  | .stop, _ => some m.stopEffect

/-- A step of the pipeline, with the answer of `malloc` where it is asked. -/
def step (m : Payloads) (a : GatewayAction × Addr) : Option Payloads :=
  (m.gateway.step a.1).bind fun gateway =>
    (m.effect a.1 a.2).map fun m => { m with gateway }

end Payloads

end TelemetryTestbed.Gateway
