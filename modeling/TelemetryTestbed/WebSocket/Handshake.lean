import TelemetryTestbed.WebSocket.Sha1

/-!
# The opening handshake

`readHttpRequest` is one pass of the receive loop, so the machine of the server
decides where the stream is cut. `wsHandshakeReply` is the rest of
`ws_handshake` up to the send: the bytes of the 101 response, or a rejection.

The buffer has 8192 bytes, and a head that is not complete when they are full is a failure.
What follows the head in the bytes of the last `recv` stays in the buffer and is given up with
it.
-/

namespace TelemetryTestbed.WebSocket

open TelemetryTestbed.Lib

def wsGuid : Bytes := ascii "258EAFA5-E914-47DA-95CA-C5AB0DC85B11"

/-- `HTTP_MAX`. -/
def httpMax : Nat := 8192

def crlf : Bytes := [13, 10]

/-- The state of `read_http_request` after a `recv`: it goes on with what is in the buffer, it
has found the end of the head, or it has given up. -/
inductive HttpRead
  | more (buf : Bytes)
  | done (buf : Bytes)
  | failed
  deriving DecidableEq

/-- One pass of the loop of `read_http_request`: `chunk` has been received. -/
def readHttpRequest (buf chunk : Bytes) : HttpRead :=
  let buf := buf ++ chunk
  if (strstr (cstr buf) (crlf ++ crlf)).isSome then .done buf
  else if httpMax - 1 ≤ buf.length then .failed
  else .more buf

def icaseStartsWith : Bytes → Bytes → Bool
  | _, [] => true
  | [], _ :: _ => false
  | a :: s, p :: ps => tolower a = tolower p && icaseStartsWith s ps

def isBlank (b : UInt8) : Bool := b = 32 || b = 9

/-- The line loop of `find_header_value`; the first argument bounds the lines. -/
def findHeaderLoop : Nat → Bytes → Bytes → Option Bytes
  | 0, _, _ => none
  | n + 1, p, name =>
    if p = [] then none
    else match strstr p crlf with
      | none => none
      | some lineEnd =>
        let line := p.take (p.length - lineEnd.length)
        if line = [] then none
        else if name.length + 1 < line.length ∧ icaseStartsWith p name
            ∧ p[name.length]? = some 58 then
          some ((line.drop (name.length + 1)).dropWhile isBlank)
        else findHeaderLoop n (lineEnd.drop 2) name

/-- `find_header_value`: the value in the first line that names the header. -/
def findHeaderValue (http name : Bytes) : Option Bytes :=
  findHeaderLoop http.length http name

def computeAcceptKey (secKey : Bytes) : Option Bytes :=
  let cat := snprintf 256 (secKey ++ wsGuid)
  base64Encode (sha1Final (sha1Update sha1Init cat)) 64

/-- The 101 response for an accept value. -/
def switchingProtocols (accept : Bytes) : Bytes :=
  ascii "HTTP/1.1 101 Switching Protocols\r\n" ++
  ascii "Upgrade: websocket\r\n" ++
  ascii "Connection: Upgrade\r\n" ++
  ascii "Sec-WebSocket-Accept: " ++ accept ++ crlf ++ crlf

/-- `ws_handshake` after the request is read: the response it sends, or `none`
where it gives up. -/
def wsHandshakeReply (buf : Bytes) : Option Bytes :=
  let http := cstr buf
  if ¬ (ascii "GET ").isPrefixOf http then none
  else match findHeaderValue http (ascii "Sec-WebSocket-Key") with
    | none => none
    | some key =>
      if key = [] then none
      else match computeAcceptKey key with
        | none => none
        | some accept =>
          let resp := switchingProtocols accept
          if resp.length < 256 then some resp else none

/-- What the server answers to an accepted request is a 101 response. -/
theorem wsHandshakeReply_prefix {buf resp : Bytes} (h : wsHandshakeReply buf = some resp) :
    ascii "HTTP/1.1 101" <+: resp := by
  have hpre : ∀ accept, ascii "HTTP/1.1 101" <+: switchingProtocols accept := by
    intro accept
    unfold switchingProtocols
    simp only [List.append_assoc]
    have hline : ascii "HTTP/1.1 101" <+: ascii "HTTP/1.1 101 Switching Protocols\r\n" := by
      decide
    exact hline.trans (List.prefix_append _ _)
  simp only [wsHandshakeReply] at h
  split at h
  · cases h
  · split at h
    · cases h
    · split at h
      · cases h
      · split at h
        · cases h
        · split at h
          · cases h
            exact hpre _
          · cases h

end TelemetryTestbed.WebSocket
