import Mathlib.Logic.Function.Basic
import TelemetryTestbed.Lib.Run
import TelemetryTestbed.WebSocket.Handshake
import TelemetryTestbed.WebSocket.Frame

/-!
# The WebSocket server as a machine

`accept_thread`, one `client_thread` per connection, the calls of
`ws_server_broadcast` and `ws_server_stop` take turns, one shared access, system
call or critical section at a time. An action names the party that moves and
what its environment answers (`Choice`), so an interleaving is a list of actions.

What the parties share is the `Store`: the descriptor table, the heap of
`ws_client_t` records and the list of clients. Descriptor numbers that are
closed and records that are released may be handed out again. Loads from a
released record answer what was last stored there. Connections are numbered in
the order of `accept`; the number, the counters of closes and releases and the
list of faults are bookkeeping that no branch of the program looks at.

The mutex is held across steps by a broadcast alone. The other critical sections
(registration, `client_remove`, taking the list in `ws_server_stop`) are single
steps that wait until no broadcast is under way.
-/

namespace TelemetryTestbed.WebSocket

open TelemetryTestbed.Lib

abbrev Fd := Nat
abbrev Addr := Nat
abbrev ConnId := Nat

/-! ## The shared store -/

/-- `ws_client_t`. `conn` is the connection the record was allocated for; the list
stands for the `next` fields. -/
structure WsClient where
  fd : Fd
  alive : Bool
  conn : ConnId
  deriving DecidableEq

/-- A cell of the heap. A released one keeps what was last stored there, which is what a load
through a stale pointer answers, until the address is handed out again. -/
inductive Cell
  | fresh
  | live (c : WsClient)
  | released (c : WsClient)
  deriving DecidableEq

/-- What a load finds in a cell. -/
def Cell.content : Cell → WsClient
  | .fresh => ⟨0, false, 0⟩
  | .live c => c
  | .released c => c

/-- The cell after `alive = 0` is stored in it. -/
def Cell.dead : Cell → Cell
  | .fresh => .fresh
  | .live c => .live { c with alive := false }
  | .released c => .released { c with alive := false }

/-- A `ws_client_t *`: the address, and the connection whose record stood there
when the pointer was taken. -/
@[ext] structure Ptr where
  addr : Addr
  conn : ConnId
  deriving DecidableEq

/-- What must not happen to a record or a descriptor. Faults are counted and stop nothing: the
program does not notice them either. -/
inductive Fault
  /-- A record was read, written, unlinked or released after its release. -/
  | staleRecord (p : Ptr)
  /-- A descriptor number was closed that by then belonged to another connection. -/
  | foreignClose (n : Fd) (k : ConnId)
  deriving DecidableEq

/-- What the parties share: the descriptor table, the heap of the records and the list of
clients. The counters and the list of faults are bookkeeping. -/
structure Store where
  /-- The descriptor table. -/
  fds : Fd → Option ConnId
  heap : Addr → Cell
  /-- `s->clients`, first client first. -/
  clients : List Ptr
  /-- The number of connections accepted so far. -/
  nextConn : ConnId
  closes : ConnId → Nat
  allocs : ConnId → Nat
  releases : ConnId → Nat
  faults : List Fault

namespace Store

def load (t : Store) (p : Ptr) : WsClient := (t.heap p.addr).content

/-- The pointer still points to the record it was taken from. -/
def valid (t : Store) (p : Ptr) : Bool :=
  match t.heap p.addr with
  | .live c => c.conn = p.conn
  | _ => false

/-- An access to a record. -/
def touch (t : Store) (p : Ptr) : Store :=
  if t.valid p then t else { t with faults := .staleRecord p :: t.faults }

/-- `accept` answers the free number `n`. -/
def accepted (t : Store) (n : Fd) : Store :=
  { t with
    fds := Function.update t.fds n (some t.nextConn)
    nextConn := t.nextConn + 1 }

/-- `calloc`, and the stores to the fields of the new record. -/
def alloc (t : Store) (r : Addr) (n : Fd) (k : ConnId) : Store :=
  { t with
    heap := Function.update t.heap r (.live ⟨n, true, k⟩)
    allocs := Function.update t.allocs k (t.allocs k + 1) }

/-- `c->next = s->clients; s->clients = c`. -/
def push (t : Store) (p : Ptr) : Store :=
  { t.touch p with clients := p :: t.clients }

/-- `c->alive = 0`. -/
def markDead (t : Store) (p : Ptr) : Store :=
  let t := t.touch p
  { t with heap := Function.update t.heap p.addr (t.heap p.addr).dead }

/-- `close(n)` by a party that takes `n` for the descriptor of connection `k`. -/
def close (t : Store) (n : Fd) (k : ConnId) : Store :=
  { t with
    fds := Function.update t.fds n none
    closes := Function.update t.closes k (t.closes k + 1)
    faults :=
      if t.fds n = none ∨ t.fds n = some k then t.faults
      else .foreignClose n k :: t.faults }

/-- `close(c->fd)`. -/
def closeOf (t : Store) (p : Ptr) : Store := (t.touch p).close (t.load p).fd p.conn

/-- `free(c)`. -/
def free (t : Store) (p : Ptr) : Store :=
  let t := t.touch p
  { t with
    heap := Function.update t.heap p.addr (.released (t.load p))
    releases := Function.update t.releases p.conn (t.releases p.conn + 1) }

/-- The clients `client_remove` walks over until it finds the address. -/
def walked (r : Addr) : List Ptr → List Ptr
  | [] => []
  | q :: qs => if q.addr = r then [q] else q :: walked r qs

/-- `client_remove`. -/
def clientRemove (t : Store) (p : Ptr) : Store :=
  { (walked p.addr t.clients).foldl touch t with
    clients := t.clients.eraseP fun q => q.addr = p.addr }

/-! Most operations leave the list, or the descriptor table, as it is. -/

@[simp] theorem touch_clients (t : Store) (p : Ptr) : (t.touch p).clients = t.clients := by
  unfold touch
  split <;> rfl

@[simp] theorem touch_fds (t : Store) (p : Ptr) : (t.touch p).fds = t.fds := by
  unfold touch
  split <;> rfl

@[simp] theorem markDead_clients (t : Store) (p : Ptr) :
    (t.markDead p).clients = t.clients := touch_clients t p

@[simp] theorem markDead_fds (t : Store) (p : Ptr) : (t.markDead p).fds = t.fds :=
  touch_fds t p

@[simp] theorem push_fds (t : Store) (p : Ptr) : (t.push p).fds = t.fds := touch_fds t p

@[simp] theorem closeOf_clients (t : Store) (p : Ptr) :
    (t.closeOf p).clients = t.clients := touch_clients t p

@[simp] theorem free_clients (t : Store) (p : Ptr) : (t.free p).clients = t.clients :=
  touch_clients t p

@[simp] theorem free_fds (t : Store) (p : Ptr) : (t.free p).fds = t.fds := touch_fds t p

@[simp] theorem clientRemove_fds (t : Store) (p : Ptr) : (t.clientRemove p).fds = t.fds := by
  show ((walked p.addr t.clients).foldl touch t).fds = t.fds
  generalize walked p.addr t.clients = l
  induction l generalizing t with
  | nil => rfl
  | cons q l ih => rw [List.foldl_cons, ih, touch_fds]

/-- Closing the descriptor of one connection leaves that of another. -/
theorem close_fds {t : Store} {m n : Fd} {j k : ConnId} (hm : t.fds m = some k)
    (hn : t.fds n = some j) (hjk : j ≠ k) : (t.close m k).fds n = some j := by
  have hne : n ≠ m := fun e => hjk (Option.some.inj (hn.symm.trans (e ▸ hm)))
  exact (Function.update_of_ne hne _ _).trans hn

end Store

/-! ## The parties -/

/-- One call of `ws_send_text` or `ws_send_control`: its number and its frame. The number tells
two calls with one frame apart on the wire. -/
structure FrameCall where
  id : Nat
  bytes : Bytes
  deriving DecidableEq

/-- A frame on its way out: what has been sent, what the current `send_all` has
left, and the `send_all` calls after it. -/
structure Sending where
  call : FrameCall
  sent : Bytes
  buf : Bytes
  rest : List Bytes
  deriving DecidableEq

/-- The call after a `send` of `w` bytes; `none` when the frame is out. -/
def Sending.advance (o : Sending) (w : Nat) : Option Sending :=
  let sent := o.sent ++ o.buf.take w
  if o.buf.drop w = [] then
    match o.rest with
    | [] => none
    | b :: rest => some { o with sent, buf := b, rest }
  else some { o with sent, buf := o.buf.drop w }

/-- Part of the frame is out and part of it is not. -/
def Sending.midFrame (o : Sending) : Bool := o.sent ≠ []

/-- What `client_thread` does after a reply: it takes the next turn of its loop, or leaves it,
which is what follows the answer to a close frame. -/
inductive After
  | loop
  | leave
  deriving DecidableEq

/-- Where `client_thread` is. Every position after the first holds the pointer `c`, and those
within a call hold the descriptor that the call has read from the record at its beginning. -/
inductive ThreadPc
  | absent
  /-- `ws_handshake(c->fd)` -/
  | start (p : Ptr)
  /-- `recv` in `read_http_request` -/
  | handshake (p : Ptr) (fd : Fd) (buf : Bytes)
  /-- `send_all` of the response to the request `http`, with `rest` left -/
  | respond (p : Ptr) (fd : Fd) (http rest : Bytes)
  /-- `ws_send_text(c->fd, ..)` or `ws_send_control(c->fd, ..)` -/
  | reply (p : Ptr) (frame : List Bytes) (next : After)
  | sending (p : Ptr) (fd : Fd) (out : Sending) (next : After)
  /-- `while (s->running && c->alive)` -/
  | head (p : Ptr)
  /-- `ws_recv_frame(c->fd, ..)` -/
  | recv (p : Ptr)
  | receiving (p : Ptr) (fd : Fd)
  /-- `c->alive = 0` -/
  | leave (p : Ptr)
  /-- `close(c->fd)` -/
  | close (p : Ptr)
  /-- `client_remove(s, c)` -/
  | remove (p : Ptr)
  /-- `free(c)` -/
  | free (p : Ptr)
  | done
  deriving DecidableEq

/-- Where `accept_thread` is; `n` is its `cfd`. The positions are those between two accesses to
what other parties can see, so a failure of `calloc` or of `pthread_create` has positions of its
own. -/
inductive AcceptPc
  | head
  | waiting
  /-- `calloc` -/
  | accepted (n : Fd) (k : ConnId)
  /-- `close(cfd)` where `calloc` failed -/
  | drop (n : Fd) (k : ConnId)
  | register (p : Ptr) (n : Fd)
  /-- `pthread_create(&c->th, ..)` -/
  | create (p : Ptr) (n : Fd)
  /-- `pthread_detach(c->th)` -/
  | detach (p : Ptr)
  | failMark (p : Ptr) (n : Fd)
  | failClose (p : Ptr) (n : Fd)
  | failRemove (p : Ptr)
  | failFree (p : Ptr)
  | done
  deriving DecidableEq

/-- Where `ws_server_broadcast` is: `seen` are the clients `pp` has passed and
`rest` those after the current one. -/
inductive BcastPc
  /-- `while (*pp)`, and the load of `c->alive` -/
  | visit (seen rest : List Ptr)
  /-- `ws_send_text(c->fd, ..)` -/
  | call (seen : List Ptr) (p : Ptr) (rest : List Ptr)
  | sending (seen : List Ptr) (p : Ptr) (rest : List Ptr) (fd : Fd) (out : Sending)
  /-- `pp = &(*pp)->next` -/
  | next (seen : List Ptr) (p : Ptr) (rest : List Ptr)
  /-- `c->alive = 0` after a failed send -/
  | mark (seen : List Ptr) (p : Ptr) (rest : List Ptr)
  /-- `*pp = c->next` -/
  | unlink (seen : List Ptr) (p : Ptr) (rest : List Ptr)
  | close (seen : List Ptr) (p : Ptr) (rest : List Ptr)
  | free (seen : List Ptr) (p : Ptr) (rest : List Ptr)
  deriving DecidableEq

/-- A call of `ws_server_broadcast` that holds the mutex, from the head of the list to its end.
-/
structure Broadcast where
  msg : Bytes
  pc : BcastPc
  deriving DecidableEq

/-- Where `ws_server_stop` is; the lists are what is left of the list it took. -/
inductive StopPc
  | idle
  | join
  | take
  | walk (todo : List Ptr)
  | mark (p : Ptr) (todo : List Ptr)
  | close (p : Ptr) (todo : List Ptr)
  | free (p : Ptr) (todo : List Ptr)
  | returned
  deriving DecidableEq

/-- The result of `ws_handshake` on a connection, with the request it answered. Before the
response is out in full it is still pending. -/
inductive Outcome
  | pending
  | completed (http : Bytes)
  | rejected
  deriving DecidableEq

/-- One `send` that succeeded: bytes of the handshake response, or of a frame. -/
inductive Chunk
  | http (bytes : Bytes)
  | frame (call : FrameCall) (bytes : Bytes)
  deriving DecidableEq

/-- The state of the machine: what is shared, where each party is, and what has been written to
each connection. `outcome`, `wire` and `nextCall` are bookkeeping. -/
structure Server where
  store : Store
  running : Bool
  accept : AcceptPc
  thread : ConnId → ThreadPc
  /-- The broadcast that holds `s->mu`. -/
  bcast : Option Broadcast
  stop : StopPc
  outcome : ConnId → Outcome
  /-- What has been written to each connection, one entry a `send`. -/
  wire : ConnId → List Chunk
  nextCall : Nat

/-- The server as `ws_server_start` leaves it. -/
def Server.init : Server where
  store :=
    { fds := fun _ => none, heap := fun _ => .fresh, clients := [], nextConn := 0,
      closes := fun _ => 0, allocs := fun _ => 0, releases := fun _ => 0, faults := [] }
  running := true
  accept := .head
  thread := fun _ => .absent
  bcast := none
  stop := .idle
  outcome := fun _ => .pending
  wire := fun _ => []
  nextCall := 0

/-! ## Steps -/

/-- What the environment answers to the party that moves. An answer that does not belong to
where the party is makes no step. -/
inductive Choice
  | go
  /-- `accept` succeeds with a descriptor number. -/
  | opened (n : Fd)
  /-- `calloc` answers an address. -/
  | allocated (r : Addr)
  /-- `recv` answers bytes of the request. -/
  | chunk (bytes : Bytes)
  /-- `ws_recv_frame` answers a frame; `db` is what the history query would answer. -/
  | frame (opcode : UInt8) (payload : Bytes) (db : Option HistoryQuery)
  /-- `send` takes `w` bytes. -/
  | sent (w : Nat)
  /-- The system call, or the allocation, fails. -/
  | failed

namespace Server

def setThread (s : Server) (k : ConnId) (pc : ThreadPc) : Server :=
  { s with thread := Function.update s.thread k pc }

def setOutcome (s : Server) (k : ConnId) (o : Outcome) : Server :=
  { s with outcome := Function.update s.outcome k o }

/-- A `send` on descriptor `n` that succeeds, on the connection behind it. -/
def write (s : Server) (n : Fd) (chunk : Chunk) : Option Server :=
  (s.store.fds n).map fun k =>
    { s with wire := Function.update s.wire k (s.wire k ++ [chunk]) }

theorem write_eq {s : Server} {n : Fd} {k : ConnId} (h : s.store.fds n = some k)
    (chunk : Chunk) : s.write n chunk =
      some { s with wire := Function.update s.wire k (s.wire k ++ [chunk]) } := by
  rw [write, h, Option.map_some]

/-- The call of `send_all` for the first piece of a frame. -/
def beginFrame (s : Server) (frame : List Bytes) : Sending :=
  { call := ⟨s.nextCall, frame.flatten⟩, sent := [], buf := frame.headD [],
    rest := frame.tail }

/-- `ws_handshake` has failed. -/
def reject (s : Server) (k : ConnId) (p : Ptr) : Server :=
  (s.setOutcome k .rejected).setThread k (.leave p)

def acceptStep (s : Server) (c : Choice) : Option Server :=
  match s.accept, c with
  | .head, .go => some { s with accept := if s.running then .waiting else .done }
  | .waiting, .failed => some { s with accept := if s.running then .head else .done }
  | .waiting, .opened n =>
    if s.store.fds n = none then
      some { s with store := s.store.accepted n, accept := .accepted n s.store.nextConn }
    else none
  | .accepted n k, .failed => some { s with accept := .drop n k }
  | .drop n k, .go => some { s with store := s.store.close n k, accept := .head }
  | .accepted n k, .allocated r =>
    match s.store.heap r with
    | .live _ => none
    | _ => some { s with store := s.store.alloc r n k, accept := .register ⟨r, k⟩ n }
  | .register p n, .go =>
    if s.bcast = none then some { s with store := s.store.push p, accept := .create p n }
    else none
  | .create p _, .go =>
    some ({ s with store := s.store.touch p, accept := .detach p }.setThread p.conn (.start p))
  | .create p n, .failed => some { s with store := s.store.touch p, accept := .failMark p n }
  | .detach p, .go => some { s with store := s.store.touch p, accept := .head }
  | .failMark p n, .go => some { s with store := s.store.markDead p, accept := .failClose p n }
  | .failClose p n, .go =>
    some { s with store := s.store.close n p.conn, accept := .failRemove p }
  | .failRemove p, .go =>
    if s.bcast = none then some { s with store := s.store.clientRemove p, accept := .failFree p }
    else none
  | .failFree p, .go => some { s with store := s.store.free p, accept := .head }
  | _, _ => none

def threadStep (s : Server) (k : ConnId) (c : Choice) : Option Server :=
  match s.thread k, c with
  | .start p, .go =>
    some ({ s with store := s.store.touch p }.setThread k (.handshake p (s.store.load p).fd []))
  | .handshake p _ _, .failed => some (s.reject k p)
  | .handshake p fd buf, .chunk bytes =>
    if bytes = [] ∨ httpMax - 1 < buf.length + bytes.length then none
    else match readHttpRequest buf bytes with
      | .more buf => some (s.setThread k (.handshake p fd buf))
      | .failed => some (s.reject k p)
      | .done http =>
        match wsHandshakeReply http with
        | none => some (s.reject k p)
        | some resp => some (s.setThread k (.respond p fd http resp))
  | .respond p _ _ _, .failed => some (s.reject k p)
  | .respond p fd http rest, .sent w =>
    if w = 0 ∨ rest.length < w then none
    else (s.write fd (.http (rest.take w))).map fun s =>
      if rest.drop w = [] then
        (s.setOutcome k (.completed http)).setThread k (.reply p (wsSendText onlineStatus) .loop)
      else s.setThread k (.respond p fd http (rest.drop w))
  | .reply p frame next, .go =>
    some ({ s with store := s.store.touch p, nextCall := s.nextCall + 1 }.setThread k
      (.sending p (s.store.load p).fd (s.beginFrame frame) next))
  | .sending p _ _ next, .failed =>
    some (s.setThread k (match next with | .loop => .head p | .leave => .leave p))
  | .sending p fd out next, .sent w =>
    if w = 0 ∨ out.buf.length < w then none
    else (s.write fd (.frame out.call (out.buf.take w))).map fun s =>
      match out.advance w with
      | some out => s.setThread k (.sending p fd out next)
      | none => s.setThread k (match next with | .loop => .head p | .leave => .leave p)
  | .head p, .go =>
    some ({ s with store := s.store.touch p }.setThread k
      (if s.running && (s.store.load p).alive then .recv p else .leave p))
  | .recv p, .go =>
    some ({ s with store := s.store.touch p }.setThread k (.receiving p (s.store.load p).fd))
  | .receiving p _, .failed => some (s.setThread k (.leave p))
  | .receiving p _, .frame opcode payload db =>
    some (s.setThread k (match clientReply db opcode payload with
      | .send frame => .reply p frame .loop
      | .sendAndLeave frame => .reply p frame .leave
      | .ignore => .head p))
  | .leave p, .go => some ({ s with store := s.store.markDead p }.setThread k (.close p))
  | .close p, .go => some ({ s with store := s.store.closeOf p }.setThread k (.remove p))
  | .remove p, .go =>
    if s.bcast = none then
      some ({ s with store := s.store.clientRemove p }.setThread k (.free p))
    else none
  | .free p, .go => some ({ s with store := s.store.free p }.setThread k .done)
  | _, _ => none

/-- A call of `ws_server_broadcast` takes the mutex. -/
def bcastBegin (s : Server) (msg : Bytes) : Option Server :=
  if s.bcast = none ∧ s.stop ≠ .returned then
    some { s with bcast := some ⟨msg, .visit [] s.store.clients⟩ }
  else none

/-- The broadcast under way goes on at `pc`. -/
def setBcast (s : Server) (b : Broadcast) (pc : BcastPc) : Server :=
  { s with bcast := some { b with pc := pc } }

def bcastStep (s : Server) (c : Choice) : Option Server :=
  match s.bcast with
  | none => none
  | some b =>
    match b.pc, c with
    | .visit _ [], .go => some { s with bcast := none }
    | .visit seen (p :: rest), .go =>
      some ({ s with store := s.store.touch p }.setBcast b
        (if (s.store.load p).alive then .call seen p rest else .unlink seen p rest))
    | .call seen p rest, .go =>
      some ({ s with store := s.store.touch p, nextCall := s.nextCall + 1 }.setBcast b
        (.sending seen p rest (s.store.load p).fd (s.beginFrame (wsSendText b.msg))))
    | .sending seen p rest _ _, .failed => some (s.setBcast b (.mark seen p rest))
    | .sending seen p rest fd out, .sent w =>
      if w = 0 ∨ out.buf.length < w then none
      else (s.write fd (.frame out.call (out.buf.take w))).map fun s =>
        match out.advance w with
        | some out => s.setBcast b (.sending seen p rest fd out)
        | none => s.setBcast b (.next seen p rest)
    | .next seen p rest, .go =>
      some ({ s with store := s.store.touch p }.setBcast b (.visit (seen ++ [p]) rest))
    | .mark seen p rest, .go =>
      some ({ s with store := s.store.markDead p }.setBcast b (.unlink seen p rest))
    | .unlink seen p rest, .go =>
      some ({ s with store := { s.store.touch p with clients := seen ++ rest } }.setBcast b
        (.close seen p rest))
    | .close seen p rest, .go =>
      some ({ s with store := s.store.closeOf p }.setBcast b (.free seen p rest))
    | .free seen p rest, .go =>
      some ({ s with store := s.store.free p }.setBcast b (.visit seen rest))
    | _, _ => none

/-- `ws_server_stop`; `accept` fails from its first step on, which the machine
allows at any time. -/
def stopStep (s : Server) (c : Choice) : Option Server :=
  match s.stop, c with
  | .idle, .go => some { s with running := false, stop := .join }
  | .join, .go => if s.accept = .done then some { s with stop := .take } else none
  | .take, .go =>
    if s.bcast = none then
      some { s with store := { s.store with clients := [] }, stop := .walk s.store.clients }
    else none
  | .walk [], .go => some { s with stop := .returned }
  | .walk (p :: todo), .go => some { s with store := s.store.touch p, stop := .mark p todo }
  | .mark p todo, .go => some { s with store := s.store.markDead p, stop := .close p todo }
  | .close p todo, .go => some { s with store := s.store.closeOf p, stop := .free p todo }
  | .free p todo, .go => some { s with store := s.store.free p, stop := .walk todo }
  | _, _ => none

end Server

/-- Who moves, and what the environment answers. A broadcast begins with its message, and the
steps of the one that is under way need no name. -/
inductive Action
  | accept (c : Choice)
  | thread (k : ConnId) (c : Choice)
  | bcastBegin (msg : Bytes)
  | bcast (c : Choice)
  | stop (c : Choice)

def Server.step (s : Server) : Action → Option Server
  | .accept c => s.acceptStep c
  | .thread k c => s.threadStep k c
  | .bcastBegin msg => s.bcastBegin msg
  | .bcast c => s.bcastStep c
  | .stop c => s.stopStep c

end TelemetryTestbed.WebSocket
