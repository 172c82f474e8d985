import TelemetryTestbed.Lib.Stream
import TelemetryTestbed.WebSocket.Frame

/-!
# The byte streams of a connection

`recv_all`, `send_all` and `ws_recv_frame`, each over what the system calls
answer. A `recv` takes at most what it is asked for and leaves the rest of a
piece for the next call; a `send` takes at most what it is given.

The functions are readers and writers of streams of events: one `recv` or `send` each, with
what it answers. The loops over short reads and short writes, and the retries after `EINTR`,
are as the source has them. Which answers the kernel may give is left open.
-/

namespace TelemetryTestbed.WebSocket

open TelemetryTestbed.Lib

/-- `WS_MAX_PAYLOAD`. -/
def wsMaxPayload : Nat := 1024 * 1024

/-! ## Receiving -/

/-- `recv_all` for the bytes it still has to get. -/
def recvAll : Nat → Reader UInt8 Bytes
  | 0, inc => some ([], inc)
  | _ + 1, [] => none
  | n + 1, .eintr :: inc => recvAll (n + 1) inc
  | _ + 1, .failed :: _ => none
  | n + 1, .data bytes :: inc =>
    if bytes.isEmpty then none
    else if bytes.length ≤ n + 1 then
      match recvAll (n + 1 - bytes.length) inc with
      | none => none
      | some (got, rest) => some (bytes ++ got, rest)
    else some (bytes.take (n + 1), .data (bytes.drop (n + 1)) :: inc)

/-- What `ws_recv_frame` hands out: the opcode, without the flag bits beside it, and the payload
with its mask taken off. -/
structure Frame where
  opcode : UInt8
  payload : Bytes
  deriving DecidableEq

/-- The length of a frame, for the second byte of its header. -/
def recvLength (h1 : UInt8) : Reader UInt8 UInt64 :=
  let len := (h1 &&& 0x7F).toUInt64
  if len = 126 then
    (recvAll 2).andThen fun ext =>
      .ret ((ext.getD 0 0).toUInt64 <<< 8 ||| (ext.getD 1 0).toUInt64)
  else if len = 127 then
    (recvAll 8).andThen fun ext =>
      .ret (ext.foldl (fun len b => len <<< 8 ||| b.toUInt64) 0)
  else .ret len

/-- `payload[i] ^= mask[i % 4]` for every index. -/
def unmask (mask payload : Bytes) : Bytes :=
  payload.mapIdx fun i b => b ^^^ mask.getD (i % 4) 0

/-- `ws_recv_frame` from the check of the length on: the mask and the payload. -/
def recvBody (malloc : Bool) (opcode masked : UInt8) (len : UInt64) : Reader UInt8 Frame :=
  .require (len.toNat ≤ wsMaxPayload) <|
    (if masked = 1 then recvAll 4 else .ret [0, 0, 0, 0]).andThen fun mask =>
      .require (malloc = true) <|
        (if 0 < len then recvAll len.toNat else .ret []).andThen fun payload =>
          .ret ⟨opcode, if masked = 1 then unmask mask payload else payload⟩

/-- `ws_recv_frame`, where `malloc` says whether the payload buffer is there. -/
def wsRecvFrame (malloc : Bool) : Reader UInt8 Frame :=
  (recvAll 2).andThen fun h2 =>
    (recvLength (h2.getD 1 0)).andThen fun len =>
      recvBody malloc (h2.getD 0 0 &&& 0x0F) (h2.getD 1 0 >>> 7 &&& 1) len

/-! ## Sending -/

/-- What one `send` answers: that it has taken so many bytes, that a signal came, or a failure
of any other kind. -/
inductive SendAnswer
  | took (w : Nat)
  | eintr
  | failed
  deriving DecidableEq

/-- What has become of a call that sends: the bytes that went out, the answers it
has not used, and its result, which is missing while it waits for an answer. -/
structure Sent where
  wire : Bytes
  rest : List SendAnswer
  result : Option Bool
  deriving DecidableEq

/-- Bytes that went out before. -/
def Sent.after (o : Sent) (bytes : Bytes) : Sent := { o with wire := bytes ++ o.wire }

/-- `send_all`. -/
def sendAll : List SendAnswer → Bytes → Sent
  | answers, [] => ⟨[], answers, some true⟩
  | [], _ :: _ => ⟨[], [], none⟩
  | .eintr :: answers, b :: buf => sendAll answers (b :: buf)
  | .failed :: answers, _ :: _ => ⟨[], answers, some false⟩
  | .took w :: answers, b :: buf =>
    if w = 0 then ⟨[], answers, some false⟩
    else (sendAll answers ((b :: buf).drop w)).after ((b :: buf).take w)

/-- A frame goes out, one `send_all` after the other, up to the first that fails. -/
def sendFrame : List SendAnswer → List Bytes → Sent
  | answers, [] => ⟨[], answers, some true⟩
  | answers, buf :: calls =>
    let out := sendAll answers buf
    if out.result = some true then (sendFrame out.rest calls).after out.wire else out

end TelemetryTestbed.WebSocket
