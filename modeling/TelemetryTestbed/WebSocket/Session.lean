import TelemetryTestbed.WebSocket.Codec
import TelemetryTestbed.WebSocket.Handshake

/-!
# What a connection makes of its client's bytes

The two readers of a connection one after the other: `read_http_request` with
whatever arrives, and `ws_recv_frame` on what is left of the stream.

There is one thread and no timing here: what counts is in what pieces the bytes came. The key,
the decision and the frames of the first calls are read off a stream of events.
-/

namespace TelemetryTestbed.WebSocket

open TelemetryTestbed.Lib

/-- `read_http_request` where `buf` has been read so far. A `recv` gets the room
the buffer has left. -/
def readHttpRequestFrom : Bytes → Reader UInt8 Bytes
  | _, [] => none
  | buf, .eintr :: inc => readHttpRequestFrom buf inc
  | _, .failed :: _ => none
  | buf, .data bytes :: inc =>
    let room := httpMax - 1 - buf.length
    if bytes.isEmpty then none
    else match readHttpRequest buf (bytes.take room) with
      | .done http => some (http, putBack (bytes.drop room) inc)
      | .failed => none
      | .more buf => readHttpRequestFrom buf inc

def secWebSocketKey : Bytes := ascii "Sec-WebSocket-Key"

/-- What the server takes from a client: the key of the request, the response to it
where there is one, and the frames. -/
structure Session where
  key : Option Bytes
  reply : Option Bytes
  frames : List Frame
  deriving DecidableEq

/-- A connection up to `calls` calls of `ws_recv_frame`, with every `send` and every
allocation in order. -/
def session (calls : Nat) (inc : Incoming UInt8) : Session :=
  match readHttpRequestFrom [] inc with
  | none => ⟨none, none, []⟩
  | some (http, rest) =>
    { key := findHeaderValue (cstr http) secWebSocketKey
      reply := wsHandshakeReply http
      frames :=
        if (wsHandshakeReply http).isSome then ((wsRecvFrame true).collect calls rest).1
        else [] }

end TelemetryTestbed.WebSocket
