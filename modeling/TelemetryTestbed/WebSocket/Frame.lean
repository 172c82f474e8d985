import TelemetryTestbed.Lib.Bytes

/-!
# Frames and replies

A frame leaves the server as the list of its `send_all` calls: the header first
and, where there is one, the payload after it. `clientReply` is the dispatch in
the frame loop of `client_thread`.

A payload of any length has a frame, with one of the three forms of the length field, and a
control frame is cut to 125 bytes first. The texts of the replies are those of the source,
byte by byte. What a history request is answered with comes from outside, as a function of the
limit.
-/

namespace TelemetryTestbed.WebSocket

open TelemetryTestbed.Lib

/-! ## Encoding -/

/-- The bytes of `n`, most significant first, in `k` places. -/
def bigEndian : Nat → Nat → Bytes
  | 0, _ => []
  | k + 1, n => UInt8.ofNat (n >>> (8 * k)) :: bigEndian k n

/-- The header `ws_send_text` builds for a message of `len` bytes. -/
def textHeader (len : Nat) : Bytes :=
  if len ≤ 125 then [0x81, UInt8.ofNat len]
  else if len ≤ 65535 then 0x81 :: 126 :: bigEndian 2 len
  else 0x81 :: 127 :: bigEndian 8 len

/-- `ws_send_text`: its calls of `send_all`. -/
def wsSendText (msg : Bytes) : List Bytes :=
  textHeader msg.length :: if 0 < msg.length then [msg] else []

/-- `ws_send_control`: its calls of `send_all`. -/
def wsSendControl (opcode : UInt8) (payload : Bytes) : List Bytes :=
  let payload := payload.take 125
  [0x80 ||| (opcode &&& 0x0F), UInt8.ofNat payload.length] ::
    if payload = [] then [] else [payload]

/-! ## History requests -/

/-- `is_history_request`. -/
def isHistoryRequest (json : Bytes) : Bool :=
  match (strstr json (ascii "\"type\"")).or (strstr json (ascii "type")) with
  | none => false
  | some p => (strstr p (ascii "history")).isSome

/-- The digit loop of `json_find_int`, which stops early once the value is large. -/
def digitLoop : Int → Bytes → Int
  | v, [] => v
  | v, b :: rest =>
    if isdigit b then
      let v := v * 10 + (b.toNat - 48 : Nat)
      if 1000000 < v then v else digitLoop v rest
    else v

/-- `json_find_int`. -/
def jsonFindInt (json key : Bytes) (defv : Int) : Int :=
  match (strstr json key).bind fun p => strchr p 58 with
  | none => defv
  | some p =>
    let p := (p.drop 1).dropWhile isspace
    let (sign, p) := if p.head? = some 45 then ((-1 : Int), p.drop 1) else (1, p)
    if (p.head?.map isdigit).getD false then sign * digitLoop 0 p else defv

/-! ## Replies -/

/-- `db_reader_history_last_json` of this moment: the JSON text for a limit, or
`none` where it fails. -/
abbrev HistoryQuery := Int → Option Bytes

/-- What the frame loop does after a frame: send something and go on, send
something and leave the loop, or only go on. -/
inductive Reply
  | send (frame : List Bytes)
  | sendAndLeave (frame : List Bytes)
  | ignore
  deriving DecidableEq

def onlineStatus : Bytes := ascii "\x7b\"type\":\"status\",\"status\":\"online\"\x7d"

def dbNotAvailable : Bytes :=
  ascii "\x7b\"type\":\"error\",\"message\":\"db_not_available\"\x7d"

def historyQueryFailed : Bytes :=
  ascii "\x7b\"type\":\"error\",\"message\":\"history_query_failed\"\x7d"

/-- The dispatch on a received frame in `client_thread`; `db` is `s->db`. -/
def clientReply (db : Option HistoryQuery) (opcode : UInt8) (payload : Bytes) : Reply :=
  if opcode = 0x8 then .sendAndLeave (wsSendControl 0x8 [])
  else if opcode = 0x9 then .send (wsSendControl 0xA payload)
  else if opcode = 0xA then .ignore
  else if opcode ≠ 0x1 then .ignore
  else if isHistoryRequest (cstr payload) then
    match db with
    | none => .send (wsSendText dbNotAvailable)
    | some query =>
      match query (jsonFindInt (cstr payload) (ascii "\"last\"") 300) with
      | some json => .send (wsSendText json)
      | none => .send (wsSendText historyQueryFailed)
  else .ignore

/-! ## Frames are never empty -/

theorem textHeader_ne_nil (len : Nat) : textHeader len ≠ [] := by
  unfold textHeader
  split
  · exact List.cons_ne_nil _ _
  · split <;> exact List.cons_ne_nil _ _

/-- No `send_all` of a text frame is asked for zero bytes. -/
theorem wsSendText_pieces (msg : Bytes) : ∀ b ∈ wsSendText msg, b ≠ [] := by
  intro b hb
  rcases List.mem_cons.mp hb with rfl | hb
  · exact textHeader_ne_nil _
  · split at hb
    · next hlen =>
      obtain rfl := List.mem_singleton.mp hb
      exact List.ne_nil_of_length_pos hlen
    · cases hb

/-- No `send_all` of a control frame is asked for zero bytes. -/
theorem wsSendControl_pieces (opcode : UInt8) (payload : Bytes) :
    ∀ b ∈ wsSendControl opcode payload, b ≠ [] := by
  intro b hb
  rcases List.mem_cons.mp hb with rfl | hb
  · exact List.cons_ne_nil _ _
  · split at hb
    · cases hb
    · next hne =>
      obtain rfl := List.mem_singleton.mp hb
      exact hne

end TelemetryTestbed.WebSocket
