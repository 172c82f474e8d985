import TelemetryTestbed.Gateway.Process

/-!
# What the gateway takes it gives back

`telemetry_gateway_stop` gives back what a gateway holds that was started as far as
it got, and a start that fails at any of its calls goes through it. Three answers of the
environment are not provided for: `socket` that fails leaves the mutex of the server
behind, a server on descriptor 0 is not closed, and a `pthread_create` that fails and
leaves something in the handle has it joined.

What is held is followed function by function: each start function from what is held before it
to what is held when it returns, with success or with an error, and each close function from a
handle that may be NULL. The main law then only puts these triples together in the order of
the source.
-/

namespace TelemetryTestbed.Gateway

open TelemetryTestbed.Lib TelemetryTestbed.Mqtt

/-- The machine over the resources of the process. -/
abbrev runEvents : List Resource → Events → Option (List Resource) :=
  exec (resourceStep Resource.uses)

/-- What is held for the fields of a gateway. -/
def DbWriter.held (w : DbWriter) : List Resource :=
  (if w.insState then [.insState] else []) ++ if w.db then [.writerDb] else []

def Fields.held (g : Fields) : List Resource :=
  (if g.mqtt then [.mosqLoop, .mosq] else []) ++ (if g.statsTh then [.statsTh] else []) ++
    (if g.writerTh then [.writerTh] else []) ++
    (if g.ws.isSome then [.acceptTh, .serverFd, .wsMu, .wsServer] else []) ++
    (if g.dbr then [.readerDb] else []) ++ g.dbw.held ++
    [.statsMu, .qCv, .qMu, .gateway, .library]

/-- How far a start has got: each thing is there when those before it are. -/
structure Fields.Started (g : Fields) : Prop where
  insState : g.dbw.insState = true → g.dbw.db = true
  dbr : g.dbr = true → g.dbw.insState = true
  ws : g.ws.isSome = true → g.dbr = true
  serverFd : g.ws ≠ some 0
  writerTh : g.writerTh = true → g.ws.isSome = true
  statsTh : g.statsTh = true → g.writerTh = true
  mqtt : g.mqtt = true → g.writerTh = true

/-- What `telemetry_gateway_start` has before it opens anything. -/
def bare : List Resource := [.statsMu, .qCv, .qMu, .gateway, .library]

/-- What there is when the writer is open. -/
def writerOpen : List Resource := [.insState, .writerDb] ++ bare

/-- What there is when both databases are open. -/
def databasesOpen : List Resource := .readerDb :: writerOpen

/-- `socket` fails, and the mutex of the server is left behind. -/
theorem wsServerStart_socket {a : ServerAnswers} (hcalloc : a.calloc = true)
    (hsocket : a.socket = none) : runEvents databasesOpen (wsServerStart a).2.2 = none := by
  obtain ⟨calloc, socket, bind, listen, acceptTh⟩ := a
  obtain rfl := hcalloc
  obtain rfl := hsocket
  show runEvents databasesOpen ([.acquire .wsServer, .acquire .wsMu] ++ [.release .wsServer]) = none
  decide

/-- What a start has come to: it has all it was to have, or nothing but the library is left. -/
def Settled (start : Int × Option Fields × Events) : Prop :=
  start.1 < 0 ∧ start.2.1 = none ∧ runEvents [.library] start.2.2 = some [.library] ∨
    start.1 = 0 ∧ ∃ g, start.2.1 = some g ∧ g.Started ∧
      runEvents [.library] start.2.2 = some g.held

end TelemetryTestbed.Gateway
