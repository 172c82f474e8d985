import TelemetryTestbed.Lib.LinkedList
import TelemetryTestbed.WebSocket.Codec

/-!
# The list of clients in memory

`client_remove` and `ws_server_broadcast` walk the list with a pointer to the link in
front of the current client (`ws_client_t **pp`) and unlink through it. Here they do so
over the cells themselves. The walks have a bound on their rounds, and answer `none`
where it is used up or a pointer leads nowhere.

The machine of the server has the list as a list. Here it is a heap of cells with `next`
pointers, and what the two walks store is stored in that heap, so it can be said that they
leave a list, and whose cells it has.
-/

namespace TelemetryTestbed.WebSocket

open TelemetryTestbed.Lib

abbrev ClientAddr := Nat

/-- The fields of `ws_client_t` that the walks look at; `next` is that of the cell. -/
structure ClientFields where
  fd : Int
  alive : Bool
  deriving DecidableEq

/-- `s->clients`, and the memory of the clients. -/
abbrev ClientList := LinkedHeap ClientAddr ClientFields

/-- The loop of `client_remove`. -/
def clientRemoveLoop : Nat → ClientList → Link ClientAddr → ClientAddr → Option ClientList
  | 0, _, _, _ => none
  | n + 1, h, pp, c =>
    match h.load pp with
    | none => some h
    | some r =>
      if r = c then (h.nodes c).map fun node => h.store pp node.next
      else clientRemoveLoop n h (.next r) c

/-- `client_remove`, in its critical section. -/
def clientRemove (n : Nat) (h : ClientList) (c : ClientAddr) : Option ClientList :=
  clientRemoveLoop n h .head c

/-- What a broadcast has done: the list it leaves, its calls of `ws_send_text` with what
each wrote, and what it closed and freed. -/
structure BroadcastState where
  list : ClientList
  calls : List (ClientAddr × Bytes)
  closed : List Int
  freed : List ClientAddr

/-- `*pp = c->next; if(c->fd >= 0) close(c->fd); free(c)` -/
def BroadcastState.drop (s : BroadcastState) (pp : Link ClientAddr) (c : ClientAddr)
    (node : Node ClientAddr ClientFields) : BroadcastState :=
  { s with
    list := (s.list.store pp node.next).free c
    closed := s.closed ++ if 0 ≤ node.val.fd then [node.val.fd] else []
    freed := s.freed ++ [c] }

/-- A call of `ws_send_text` on a client. -/
def BroadcastState.sent (s : BroadcastState) (c : ClientAddr) (out : Sent) : BroadcastState :=
  { s with calls := s.calls ++ [(c, out.wire)] }

/-- `c->alive = 0` -/
def BroadcastState.markDead (s : BroadcastState) (c : ClientAddr)
    (node : Node ClientAddr ClientFields) : BroadcastState :=
  { s with
    list := { s.list with
      nodes := Function.update s.list.nodes c
        (some { node with val := { node.val with alive := false } }) } }

/-- The loop of `ws_server_broadcast`; `answers` are those of `send` for each client. -/
def broadcastLoop (msg : Bytes) (answers : ClientAddr → List SendAnswer) :
    Nat → BroadcastState → Link ClientAddr → Option BroadcastState
  | 0, _, _ => none
  | n + 1, s, pp =>
    match s.list.load pp with
    | none => some s
    | some c =>
      match s.list.nodes c with
      | none => none
      | some node =>
        if !node.val.alive then broadcastLoop msg answers n (s.drop pp c node) pp
        else
          let out := sendFrame (answers c) (wsSendText msg)
          match out.result with
          | none => none
          | some true => broadcastLoop msg answers n (s.sent c out) (.next c)
          | some false =>
            broadcastLoop msg answers n (((s.sent c out).markDead c node).drop pp c node) pp

/-- `ws_server_broadcast`, in its critical section. -/
def wsServerBroadcast (n : Nat) (h : ClientList) (msg : Bytes)
    (answers : ClientAddr → List SendAnswer) : Option BroadcastState :=
  broadcastLoop msg answers n ⟨h, [], [], []⟩ .head

end TelemetryTestbed.WebSocket
