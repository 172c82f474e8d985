import TelemetryTestbed.Mqtt.Client

/-!
# The gateway from start to stop

`main` of the gateway with `telemetry_gateway_start`, `telemetry_gateway_stop` and the
functions they open and close things with, as sequences of events. The answers of the
environment say which calls fail, and a start that fails at any of them goes through
`telemetry_gateway_stop` with what it has so far.

The records and descriptors of the clients are not among the resources.
-/

namespace TelemetryTestbed.Gateway

open TelemetryTestbed.Lib TelemetryTestbed.Mqtt

/-- Everything that the process takes at startup and has to give back: locks, statements,
handles, descriptors and threads. The clients of the WebSocket server come later and are not
among them. -/
inductive Resource
  /-- `mosquitto_lib_init` -/
  | library
  | gateway
  | qMu
  | qCv
  | statsMu
  | writerDb
  | insState
  | readerDb
  | wsServer
  | wsMu
  | serverFd
  | acceptTh
  | writerTh
  | statsTh
  | mosq
  | mosqLoop
  deriving DecidableEq

/-- What must be there as long as a resource is. `ws_server_stop` closes the socket that
`accept_thread` waits on, so the thread does not stand on it. -/
def Resource.uses : Resource → List Resource
  | .library | .gateway => []
  | .qMu | .qCv | .statsMu | .writerDb | .readerDb => [.gateway]
  | .insState => [.writerDb]
  | .wsServer => [.gateway, .readerDb]
  | .wsMu | .serverFd => [.wsServer]
  | .acceptTh => [.wsServer, .wsMu, .readerDb]
  | .writerTh => [.gateway, .qMu, .qCv, .statsMu, .writerDb, .insState, .wsServer, .wsMu]
  | .statsTh => [.gateway, .qMu, .statsMu]
  | .mosq => [.library, .gateway]
  | .mosqLoop => [.mosq, .gateway, .qMu, .qCv, .statsMu]

abbrev Events := List (Event Resource)

/-! ## The databases -/

/-- What `sqlite3_open_v2` answers. Most failures leave a handle, to be closed like
another. -/
inductive OpenAnswer
  | opened
  | failed (handle : Bool)
  deriving DecidableEq

def OpenAnswer.handle : OpenAnswer → Bool
  | .opened => true
  | .failed handle => handle

/-- The call of `sqlite3_open_v2`. -/
def OpenAnswer.events (a : OpenAnswer) (db : Resource) : Events :=
  if a.handle then [.acquire db] else []

/-- `db_writer_t`: whether its fields are not NULL. -/
structure DbWriter where
  db : Bool
  insState : Bool

/-- What `pthread_create` answers. One that fails may leave anything in the handle. -/
inductive CreateAnswer
  | created
  | failed (handle : Bool)
  deriving DecidableEq

/-- The handle is not zero. -/
def CreateAnswer.handle : CreateAnswer → Bool
  | .created => true
  | .failed handle => handle

/-- What the calls of `ws_server_start` are answered. -/
structure ServerAnswers where
  calloc : Bool
  socket : Option Nat
  bind : Bool
  listen : Bool
  acceptTh : CreateAnswer

/-- `ws_server_start`, with the descriptor of the server in `*out`. -/
def wsServerStart (a : ServerAnswers) : Int × Option Nat × Events :=
  if !a.calloc then (-1, none, [])
  else
    let server : Events := [.acquire .wsServer, .acquire .wsMu]
    match a.socket with
    | none => (-2, none, server ++ [.release .wsServer])
    | some fd =>
      let failed : Events := [.release .serverFd, .release .wsMu, .release .wsServer]
      let server := server ++ [.acquire .serverFd]
      if !a.bind then (-3, none, server ++ failed)
      else if !a.listen then (-4, none, server ++ failed)
      else if a.acceptTh ≠ .created then (-5, none, server ++ failed)
      else (0, some fd, server ++ [.acquire .acceptTh])

/-- The fields of `telemetry_gateway` that `telemetry_gateway_stop` looks at to find what it has
to release. -/
structure Fields where
  dbw : DbWriter
  dbr : Bool
  ws : Option Nat
  writerTh : Bool
  statsTh : Bool
  mqtt : Bool

/-- After `calloc`. -/
def Fields.zero : Fields := ⟨⟨false, false⟩, false, none, false, false, false⟩

/-- `pthread_create`. -/
def CreateAnswer.events (a : CreateAnswer) (th : Resource) : Events :=
  if a = .created then [.acquire th] else []

end TelemetryTestbed.Gateway
