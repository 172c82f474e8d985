import TelemetryTestbed.Lib.Demand
import TelemetryTestbed.WebSocket.Codec
import TelemetryTestbed.WebSocket.Server

/-!
# The server, one `recv` at a time

The machine of the server where `ws_recv_frame` is not one step: the calls of `recv`
in its `recv_all` are, each with what the kernel answers. With `SO_RCVTIMEO` set one
of the answers is that nothing came in time; `recv_all` goes on after `EINTR` alone.

Every other step is a step of the server as it stands, so what was shown of its runs holds
here as well. The bytes that have come for a call that is not done yet are part of the state,
and a call that ends hands its frame, or its failure, to the server.
-/

namespace TelemetryTestbed.WebSocket

open TelemetryTestbed.Lib

/-! ## `ws_recv_frame` between two answers -/

/-- The length of a frame, for the second byte of its header. -/
def awaitLength (h1 : UInt8) : Demand UInt8 UInt64 :=
  let len := (h1 &&& 0x7F).toUInt64
  if len = 126 then
    (Demand.exactly 2).andThen fun ext =>
      .ret ((ext.getD 0 0).toUInt64 <<< 8 ||| (ext.getD 1 0).toUInt64)
  else if len = 127 then
    (Demand.exactly 8).andThen fun ext =>
      .ret (ext.foldl (fun len b => len <<< 8 ||| b.toUInt64) 0)
  else .ret len

/-- From the check of the length on: the mask and the payload. -/
def awaitBody (malloc : Bool) (opcode masked : UInt8) (len : UInt64) : Demand UInt8 Frame :=
  .require (len.toNat ≤ wsMaxPayload) <|
    (if masked = 1 then Demand.exactly 4 else .ret [0, 0, 0, 0]).andThen fun mask =>
      .require (malloc = true) <|
        (if 0 < len then Demand.exactly len.toNat else .ret []).andThen fun payload =>
          .ret ⟨opcode, if masked = 1 then unmask mask payload else payload⟩

/-- `ws_recv_frame` as it is called; `malloc` says whether the payload buffer will be
there. -/
def awaitFrame (malloc : Bool) : Demand UInt8 Frame :=
  (Demand.exactly 2).andThen fun h2 =>
    (awaitLength (h2.getD 1 0)).andThen fun len =>
      awaitBody malloc (h2.getD 0 0 &&& 0x0F) (h2.getD 1 0 >>> 7 &&& 1) len

/-! ## The machine -/

/-- What `recv` answers. Only `eintr` lets `recv_all` go on without a byte; the end of the
stream, a timeout and an error are one to it. -/
inductive RecvAnswer
  | data (bytes : Bytes)
  | eintr
  /-- `EAGAIN`: `SO_RCVTIMEO` has run out. -/
  | timeout
  | closed
  | error

/-- The server, and for each connection the call of `ws_recv_frame` under way, the bytes
these calls have got so far and the frames they have handed out. -/
structure Receiving where
  server : Server
  reader : ConnId → Demand UInt8 Frame
  received : ConnId → Bytes
  frames : ConnId → List Frame

def Receiving.init : Receiving := ⟨.init, fun _ => .fail, fun _ => [], fun _ => []⟩

/-- A step of the server with `ws_recv_frame` taken apart. A call begins, and then each of its
`recv`s is a step; the last one hands its frame or its failure to the server. -/
inductive ReceivingAction
  /-- Any step but those of `ws_recv_frame`. -/
  | server (a : Action)
  /-- `ws_recv_frame(c->fd, ..)` -/
  | call (k : ConnId) (malloc : Bool)
  /-- `recv` in `recv_all`; `db` is what a history query would answer. -/
  | recv (k : ConnId) (answer : RecvAnswer) (db : Option HistoryQuery)

/-- The step is one of `ws_recv_frame`. -/
def Server.inRecvFrame (s : Server) : Action → Bool
  | .thread k _ =>
    match s.thread k with
    | .recv _ | .receiving _ _ => true
    | _ => false
  | _ => false

namespace Receiving

/-- `ws_recv_frame` fails. -/
def fail (g : Receiving) (k : ConnId) : Option Receiving :=
  (g.server.threadStep k .failed).map fun server => { g with server }

/-- `ws_recv_frame` hands out a frame, and `client_thread` looks at it. -/
def handOut (g : Receiving) (k : ConnId) (f : Frame) (db : Option HistoryQuery) :
    Option Receiving :=
  (g.server.threadStep k (.frame f.opcode f.payload db)).map fun server =>
    { g with server, frames := Function.update g.frames k (g.frames k ++ [f]) }

def callStep (g : Receiving) (k : ConnId) (malloc : Bool) : Option Receiving :=
  match g.server.thread k with
  | .recv _ =>
    (g.server.threadStep k .go).map fun server =>
      { g with server, reader := Function.update g.reader k (awaitFrame malloc) }
  | _ => none

/-- `recv` has given a piece of what `recv_all` has asked for. -/
def dataStep (g : Receiving) (k : ConnId) (bytes : Bytes) (db : Option HistoryQuery) :
    Option Receiving :=
  let g := { g with received := Function.update g.received k (g.received k ++ bytes) }
  match (g.reader k).feed bytes with
  | .ret f => g.handOut k f db
  | .fail => g.fail k
  | .more n next => some { g with reader := Function.update g.reader k (.more n next) }

def recvStep (g : Receiving) (k : ConnId) (answer : RecvAnswer) (db : Option HistoryQuery) :
    Option Receiving :=
  match g.server.thread k with
  | .receiving _ _ =>
    match answer with
    | .data bytes =>
      if bytes = [] ∨ (g.reader k).room < bytes.length then none else g.dataStep k bytes db
    | .eintr => some g
    | .timeout | .closed | .error => g.fail k
  | _ => none

def step (g : Receiving) : ReceivingAction → Option Receiving
  | .server a =>
    if g.server.inRecvFrame a then none
    else (g.server.step a).map fun server => { g with server }
  | .call k malloc => g.callStep k malloc
  | .recv k answer db => g.recvStep k answer db

end Receiving

end TelemetryTestbed.WebSocket
