import TelemetryTestbed.Lib.WebSocketFrame
import TelemetryTestbed.WebSocket.Codec
import TelemetryTestbed.WebSocket.Server

/-!
# The conversation of a connection

What the `client_thread` of one connection takes in and puts out, beside the machine:
the frames `ws_recv_frame` hands out, the frames it begins to send, and the bytes its
`send`s take. `answer` is the protocol on messages.

None of it is part of the state of the server, and no step of the server looks at it; it is a
record of the steps of one connection. The answer to a history request is the one the database
gave in that step, so the record keeps it with the frame it answers.
-/

namespace TelemetryTestbed.WebSocket

open TelemetryTestbed.Lib

/-! ## Messages -/

local instance neZero_sixteen : NeZero 16 := ⟨Nat.succ_ne_zero 15⟩

/-- An opcode and a payload. -/
abbrev Said := Fin 16 × Bytes

/-- A message as it stands on the wire. -/
def Said.bytes (m : Said) : Bytes := encodeFrame m.1 none m.2

/-- The first message of the gateway. -/
def greeting : Said := (1, onlineStatus)

/-- What a history request gets. -/
def historyAnswer (db : Option HistoryQuery) (request : Bytes) : Bytes :=
  match db with
  | none => dbNotAvailable
  | some query => (query (jsonFindInt request (ascii "\"last\"") 300)).getD historyQueryFailed

/-- A ping gets its payload back, up to what a control frame holds, a history request its
history, and a close frame a close frame. -/
def answer (f : Frame) (db : Option HistoryQuery) : Option Said :=
  if f.opcode = 0x8 then some (8, [])
  else if f.opcode = 0x9 then some (10, f.payload.take 125)
  else if f.opcode = 0x1 ∧ isHistoryRequest (cstr f.payload) then
    some (1, historyAnswer db (cstr f.payload))
  else none

/-! ## The record -/

/-- What has been said on one connection so far, kept by the steps of its thread. The answer the
database would give is taken down with each frame, since it is not the same at another time. -/
structure Conversation where
  /-- The frames of the client, each with what the database would answer then. -/
  received : List (Frame × Option HistoryQuery)
  /-- The frames that are begun. -/
  begun : List Bytes
  /-- What has been sent of them. -/
  sent : Bytes
  /-- A `send` of a frame has failed. -/
  cut : Bool

namespace Conversation

def empty : Conversation := ⟨[], [], [], false⟩

/-- A step of the thread. -/
def note (v : Conversation) : ThreadPc → Choice → Conversation
  | .receiving _ _, .frame opcode payload db =>
    { v with received := v.received ++ [(⟨opcode, payload⟩, db)] }
  | .reply _ frame _, .go => { v with begun := v.begun ++ [frame.flatten] }
  | .sending _ _ out _, .sent w => { v with sent := v.sent ++ out.buf.take w }
  | .sending _ _ _ _, .failed => { v with cut := true }
  | _, _ => v

def record (k : ConnId) (s : Server) (v : Conversation) : Action → Conversation
  | .thread j c => if j = k then v.note (s.thread k) c else v
  | _ => v

/-- What the gateway has to say by now. -/
def said (v : Conversation) (o : Outcome) : List Said :=
  (match o with
    | .completed _ => [greeting]
    | _ => []) ++ v.received.filterMap fun r => answer r.1 r.2

end Conversation

/-- The server, and the record of connection `k`. A step is one of the server, and takes the
record along. -/
structure Talk where
  server : Server
  conversation : Conversation

def Talk.init : Talk := ⟨.init, .empty⟩

def Talk.step (k : ConnId) (t : Talk) (a : Action) : Option Talk :=
  (t.server.step a).map fun server => ⟨server, t.conversation.record k t.server a⟩

/-! ## What is left to say -/

/-- The reply that is not begun. -/
def ThreadPc.pending : ThreadPc → List Bytes
  | .reply _ frame _ => [frame.flatten]
  | _ => []

/-- What is left of the frame that is begun. -/
def ThreadPc.unsent : ThreadPc → Bytes
  | .sending _ _ out _ => out.buf ++ out.rest.flatten
  | _ => []

end TelemetryTestbed.WebSocket
