import TelemetryTestbed.Laws.WebSocket.Release

/-!
# The handshake comes first

What stands on the wire of a connection is the response of its handshake and,
once all of that is out, frames. A client is on the list before its thread has
run the handshake, so this holds of the runs in which a broadcast finds clients
only after their handshake (`meetsReadyClients`), and in which the descriptor it
sends on stays with the client it was read from.

The invariant (`Ordered`) has the stage of every connection and what its wire carries at that
stage: nothing, a part of the response, the whole of it, or frames behind it. It is kept by
every step that meets the condition, and it gives the property at once. What happens when a
broadcast meets a client earlier is shown by a run at the end.
-/

namespace TelemetryTestbed.WebSocket

open TelemetryTestbed.Lib

/-! ## The condition and the property -/

/-- `ws_handshake` has succeeded on the connection. -/
def Outcome.completed? : Outcome → Bool
  | .completed _ => true
  | _ => false

/-- The client a broadcast is sending to. -/
def BcastPc.target : BcastPc → Option ConnId
  | .call _ p _ | .sending _ p _ _ _ => some p.conn
  | _ => none

/-- A broadcast passes the test of `alive` only where the handshake is over, and
no thread closes its descriptor while a broadcast is sending on it. -/
def Server.meetsReadyClients (s : Server) : Action → Bool
  | .bcast _ =>
    match s.bcast with
    | some ⟨_, .visit _ (p :: _)⟩ => (s.outcome p.conn).completed?
    | _ => true
  | .thread k _ =>
    match s.thread k, s.bcast with
    | .close _, some b => b.pc.target ≠ some k
    | _, _ => true
  | _ => true

/-- The bytes of a response and then frames; a frame only after the whole of the
response to an accepted request. -/
def HandshakeThenFrames (wire : List Chunk) (o : Outcome) : Prop :=
  ∃ (sent : List Bytes) (frames : List (FrameCall × Bytes)),
    wire = sent.map Chunk.http ++ frames.map (fun f => Chunk.frame f.1 f.2) ∧
      (frames ≠ [] → ∃ http, o = .completed http ∧
        wsHandshakeReply http = some sent.flatten ∧ ascii "HTTP/1.1 101" <+: sent.flatten)

def Server.HandshakeBeforeData (s : Server) : Prop :=
  ∀ k, HandshakeThenFrames (s.wire k) (s.outcome k)

/-! ## What the other parties leave alone -/

section

variable {s s' : Server} {c : Choice}

/-- `accept_thread` writes nothing, and of the threads it only creates one. -/
theorem Server.acceptStep_frame (h : s.acceptStep c = some s') :
    s'.wire = s.wire ∧ s'.bcast = s.bcast ∧ s'.nextCall = s.nextCall ∧
      (s'.thread = s.thread ∨ ∃ p n, s.accept = .create p n ∧
        s'.thread = Function.update s.thread p.conn (.start p)) := by
  unfold Server.acceptStep at h
  grind [Server.setThread]

theorem Server.stopStep_frame (h : s.stopStep c = some s') :
    s'.wire = s.wire ∧ s'.bcast = s.bcast ∧ s'.nextCall = s.nextCall ∧
      s'.thread = s.thread := by
  unfold Server.stopStep at h
  grind

end

/-! ## The invariant -/

/-- The wire of a connection at each position of its thread. -/
def WireAt (wire : List Chunk) (o : Outcome) : ThreadPc → Prop
  | .absent | .start _ | .handshake _ _ _ => wire = [] ∧ o = .pending
  | .respond _ _ http rest =>
    o = .pending ∧ ∃ sent : List Bytes,
      wire = sent.map Chunk.http ∧ wsHandshakeReply http = some (sent.flatten ++ rest)
  | .reply _ _ _ | .sending _ _ _ _ | .head _ | .recv _ | .receiving _ _ => o.completed? = true
  | _ => True

/-- The response is out where the handshake is completed, and no frame is where
it is not. -/
def ResponseFirst (wire : List Chunk) (o : Outcome) : Prop :=
  ∃ (sent : List Bytes) (frames : List (FrameCall × Bytes)),
    wire = sent.map Chunk.http ++ frames.map (fun f => Chunk.frame f.1 f.2) ∧
      (frames ≠ [] → o.completed? = true) ∧
      ∀ http, o = .completed http → wsHandshakeReply http = some sent.flatten

namespace ResponseFirst

variable {wire : List Chunk} {o : Outcome}

/-- A wire without frames, before the handshake is completed. -/
theorem responding (sent : List Bytes) (h : wire = sent.map Chunk.http)
    (ho : o.completed? = false) : ResponseFirst wire o := by
  refine ⟨sent, [], ?_, fun hne => absurd rfl hne, fun http e => ?_⟩
  · rw [h, List.map_nil, List.append_nil]
  · rw [e] at ho
    cases ho

/-- The last bytes of the response. -/
theorem completed {http : Bytes} (sent : List Bytes) (h : wire = sent.map Chunk.http)
    (hreply : wsHandshakeReply http = some sent.flatten) :
    ResponseFirst wire (.completed http) := by
  refine ⟨sent, [], ?_, fun _ => rfl, fun http' e => ?_⟩
  · rw [h, List.map_nil, List.append_nil]
  · cases e
    exact hreply

theorem frame (h : ResponseFirst wire o) (ho : o.completed? = true) (call : FrameCall)
    (bytes : Bytes) : ResponseFirst (wire ++ [.frame call bytes]) o := by
  obtain ⟨sent, frames, hwire, _, hreply⟩ := h
  refine ⟨sent, frames ++ [(call, bytes)], ?_, fun _ => ho, hreply⟩
  rw [hwire, List.map_append, List.map_singleton, List.append_assoc]

theorem handshakeThenFrames (h : ResponseFirst wire o) : HandshakeThenFrames wire o := by
  obtain ⟨sent, frames, hwire, hdone, hreply⟩ := h
  refine ⟨sent, frames, hwire, fun hne => ?_⟩
  have hcompleted := hdone hne
  cases o with
  | completed http =>
    have hresp := hreply http rfl
    exact ⟨http, rfl, hresp, wsHandshakeReply_prefix hresp⟩
  | pending => cases hcompleted
  | rejected => cases hcompleted

end ResponseFirst

/-- The client a broadcast sends to has its descriptor open, and is past the
handshake. -/
def TargetAt (s : Server) : BcastPc → Prop
  | .call _ p _ => (s.outcome p.conn).completed? = true ∧ ∃ n, s.store.fds n = some p.conn
  | .sending _ p _ fd _ =>
    (s.outcome p.conn).completed? = true ∧ s.store.fds fd = some p.conn
  | _ => True

theorem TargetAt.congr {s s' : Server} {pc : BcastPc} (h : TargetAt s pc)
    (same : ∀ k, pc.target = some k → (s.outcome k).completed? = true →
      (s'.outcome k).completed? = true ∧
        ∀ n, s.store.fds n = some k → s'.store.fds n = some k) : TargetAt s' pc := by
  cases pc with
  | call seen p rest =>
    obtain ⟨hdone, n, hn⟩ := h
    obtain ⟨hdone', hfds⟩ := same p.conn rfl hdone
    exact ⟨hdone', n, hfds n hn⟩
  | sending seen p rest fd out =>
    obtain ⟨hdone', hfds⟩ := same p.conn rfl h.1
    exact ⟨hdone', hfds fd h.2⟩
  | visit _ _ | next _ _ _ | mark _ _ _ | unlink _ _ _ | close _ _ _ | free _ _ _ => trivial

/-- The invariant of a run in which the handshakes come first: the stages of the connections,
what each wire may carry at the place its thread is at, and that a broadcast sends on a
connection that is ready. -/
structure Ordered (st : ConnId → Stage) (s : Server) : Prop where
  owned : Owned st s
  first : ∀ k, ResponseFirst (s.wire k) (s.outcome k)
  wires : ∀ k, WireAt (s.wire k) (s.outcome k) (s.thread k)
  target : ∀ b, s.bcast = some b → TargetAt s b.pc

namespace Ordered

variable {st st' : ConnId → Stage} {s s' : Server} {k : ConnId}

/-- A thread moves. The descriptors stay, or the thread closes one that no
broadcast sends on. -/
theorem thread_move (h : Ordered st s) (howned : Owned st' s')
    (hother : ∀ j, j ≠ k →
      s'.thread j = s.thread j ∧ s'.wire j = s.wire j ∧ s'.outcome j = s.outcome j)
    (hbcast : s'.bcast = s.bcast)
    (hfds : ∀ n j, (∃ b, s.bcast = some b ∧ b.pc.target = some j) →
      s.store.fds n = some j → s'.store.fds n = some j)
    (hcompleted : (s.outcome k).completed? = true → (s'.outcome k).completed? = true)
    (hfirst : ResponseFirst (s'.wire k) (s'.outcome k))
    (hwire : WireAt (s'.wire k) (s'.outcome k) (s'.thread k)) : Ordered st' s' := by
  refine ⟨howned, fun j => ?_, fun j => ?_, fun b hb => ?_⟩
  · by_cases hj : j = k
    · exact hj ▸ hfirst
    · rw [(hother j hj).2.1, (hother j hj).2.2]
      exact h.first j
  · by_cases hj : j = k
    · exact hj ▸ hwire
    · rw [(hother j hj).1, (hother j hj).2.1, (hother j hj).2.2]
      exact h.wires j
  · rw [hbcast] at hb
    refine (h.target b hb).congr fun j hj hdone => ⟨?_, fun n => hfds n j ⟨b, hb, hj⟩⟩
    by_cases hjk : j = k
    · rw [hjk] at hdone ⊢
      exact hcompleted hdone
    · rw [(hother j hjk).2.2]
      exact hdone

/-- A thread moves and sends nothing. -/
theorem thread_silent {pc : ThreadPc} (h : Ordered st s) (howned : Owned st' s')
    (hthread : s'.thread = Function.update s.thread k pc) (hwires : s'.wire = s.wire)
    (houtcome : s'.outcome = s.outcome) (hbcast : s'.bcast = s.bcast)
    (hfds : s'.store.fds = s.store.fds)
    (hwire : WireAt (s.wire k) (s.outcome k) pc) : Ordered st' s' := by
  refine h.thread_move (k := k) howned (fun j hj => ⟨?_, ?_, ?_⟩) hbcast ?_ ?_ ?_ ?_
  · rw [hthread, Function.update_of_ne hj]
  · rw [hwires]
  · rw [houtcome]
  · exact fun n j _ hn => hfds ▸ hn
  · rw [houtcome]
    exact id
  · rw [hwires, houtcome]
    exact h.first k
  · rw [hwires, houtcome, hthread, Function.update_self]
    exact hwire

/-- A thread sends a frame on its own descriptor. -/
theorem thread_frame {pc : ThreadPc} {call : FrameCall} {bytes : Bytes} (h : Ordered st s)
    (howned : Owned st' s') (hthread : s'.thread = Function.update s.thread k pc)
    (hwires : s'.wire = Function.update s.wire k (s.wire k ++ [.frame call bytes]))
    (houtcome : s'.outcome = s.outcome) (hbcast : s'.bcast = s.bcast)
    (hfds : s'.store.fds = s.store.fds) (hdone : (s.outcome k).completed? = true)
    (hwire : ∀ w, WireAt w (s.outcome k) pc) : Ordered st' s' := by
  refine h.thread_move (k := k) howned (fun j hj => ⟨?_, ?_, ?_⟩) hbcast ?_ ?_ ?_ ?_
  · rw [hthread, Function.update_of_ne hj]
  · rw [hwires, Function.update_of_ne hj]
  · rw [houtcome]
  · exact fun n j _ hn => hfds ▸ hn
  · rw [houtcome]
    exact id
  · rw [hwires, houtcome, Function.update_self]
    exact (h.first k).frame hdone call bytes
  · rw [hwires, houtcome, hthread, Function.update_self, Function.update_self]
    exact hwire _

/-- `ws_handshake` gives up. -/
theorem thread_reject {p : Ptr} (h : Ordered st s) (howned : Owned st' (s.reject k p))
    (sent : List Bytes) (hwire : s.wire k = sent.map Chunk.http) (ho : s.outcome k = .pending) :
    Ordered st' (s.reject k p) := by
  have houtcome : (s.reject k p).outcome k = .rejected := Function.update_self _ _ _
  have hthread : (s.reject k p).thread k = .leave p := Function.update_self _ _ _
  refine h.thread_move (k := k) howned (fun j hj => ⟨?_, rfl, ?_⟩) rfl (fun _ _ _ hn => hn) ?_ ?_ ?_
  · exact Function.update_of_ne hj _ _
  · exact Function.update_of_ne hj _ _
  · rw [ho]
    exact fun e => by cases e
  · rw [houtcome]
    exact .responding sent hwire rfl
  · rw [hthread]
    trivial

theorem thread_step {c : Choice} (h : Ordered st s) (howned : Owned st' s')
    (hguard : s.meetsReadyClients (.thread k c) = true) (hstep : s.threadStep k c = some s') :
    Ordered st' s' := by
  have hat := h.owned.threads k
  have hwire := h.wires k
  unfold Server.threadStep at hstep
  split at hstep
  next p hp =>
    rw [hp] at hwire
    cases hstep
    exact h.thread_silent howned rfl rfl rfl rfl (Store.touch_fds _ p) hwire
  next p fd buf hp =>
    rw [hp] at hwire
    cases hstep
    exact h.thread_reject howned [] hwire.1 hwire.2
  next p fd buf bytes hp =>
    rw [hp] at hwire
    split at hstep
    · cases hstep
    · split at hstep
      · cases hstep
        exact h.thread_silent howned rfl rfl rfl rfl rfl hwire
      · cases hstep
        exact h.thread_reject howned [] hwire.1 hwire.2
      · split at hstep
        · cases hstep
          exact h.thread_reject howned [] hwire.1 hwire.2
        next resp hresp =>
          cases hstep
          exact h.thread_silent howned rfl rfl rfl rfl rfl ⟨hwire.2, [], hwire.1, hresp⟩
  next p fd http rest hp =>
    rw [hp] at hwire
    obtain ⟨ho, sent, hsent, _⟩ := hwire
    cases hstep
    exact h.thread_reject howned sent hsent ho
  next p fd http rest w hp =>
    rw [hp] at hwire hat
    obtain ⟨ho, sent, hsent, hresp⟩ := hwire
    have hfd : s.store.fds fd = some k := h.owned.store.fds_of_stage (hat.2 ▸ rfl)
    have hsent' : s.wire k ++ [.http (rest.take w)] =
        (sent ++ [rest.take w]).map Chunk.http := by
      rw [hsent, List.map_append, List.map_singleton]
    have hresp' : wsHandshakeReply http =
        some ((sent ++ [rest.take w]).flatten ++ rest.drop w) := by
      rw [hresp, List.flatten_append, List.flatten_singleton, List.append_assoc,
        List.take_append_drop]
    split at hstep
    · cases hstep
    · rw [Server.write_eq hfd, Option.map_some] at hstep
      split at hstep
      next hlast =>
        rw [hlast, List.append_nil] at hresp'
        cases hstep
        refine h.thread_move (k := k) howned (fun j hj => ⟨?_, ?_, ?_⟩) rfl
          (fun _ _ _ hn => hn) ?_ ?_ ?_
        · exact Function.update_of_ne hj _ _
        · exact Function.update_of_ne hj _ _
        · exact Function.update_of_ne hj _ _
        · rw [ho]
          exact fun e => by cases e
        · show ResponseFirst (Function.update s.wire k _ k) (Function.update s.outcome k _ k)
          rw [Function.update_self, Function.update_self]
          exact .completed _ hsent' hresp'
        · show WireAt _ (Function.update s.outcome k _ k) (Function.update s.thread k _ k)
          rw [Function.update_self, Function.update_self]
          rfl
      next =>
        cases hstep
        refine h.thread_move (k := k) howned (fun j hj => ⟨?_, ?_, rfl⟩) rfl
          (fun _ _ _ hn => hn) id ?_ ?_
        · exact Function.update_of_ne hj _ _
        · exact Function.update_of_ne hj _ _
        · show ResponseFirst (Function.update s.wire k _ k) (s.outcome k)
          rw [Function.update_self]
          exact .responding _ hsent' (by rw [ho]; rfl)
        · show WireAt (Function.update s.wire k _ k) _ (Function.update s.thread k _ k)
          rw [Function.update_self, Function.update_self]
          exact ⟨ho, _, hsent', hresp'⟩
  next p frame after hp =>
    rw [hp] at hwire
    cases hstep
    exact h.thread_silent howned rfl rfl rfl rfl (Store.touch_fds _ p) hwire
  next p fd out after hp =>
    rw [hp] at hwire
    cases hstep
    cases after with
    | loop => exact h.thread_silent howned rfl rfl rfl rfl rfl hwire
    | leave => exact h.thread_silent howned rfl rfl rfl rfl rfl trivial
  next p fd out after w hp =>
    rw [hp] at hwire hat
    have hfd : s.store.fds fd = some k := h.owned.store.fds_of_stage (hat.2 ▸ rfl)
    split at hstep
    · cases hstep
    · rw [Server.write_eq hfd, Option.map_some] at hstep
      cases hadv : out.advance w with
      | some out' =>
        rw [hadv] at hstep
        cases hstep
        exact h.thread_frame howned rfl rfl rfl rfl rfl hwire fun _ => hwire
      | none =>
        rw [hadv] at hstep
        cases hstep
        cases after with
        | loop => exact h.thread_frame howned rfl rfl rfl rfl rfl hwire fun _ => hwire
        | leave => exact h.thread_frame howned rfl rfl rfl rfl rfl hwire fun _ => trivial
  next p hp =>
    rw [hp] at hwire
    cases hstep
    refine h.thread_silent howned rfl rfl rfl rfl (Store.touch_fds _ p) ?_
    split
    · exact hwire
    · trivial
  next p hp =>
    rw [hp] at hwire
    cases hstep
    exact h.thread_silent howned rfl rfl rfl rfl (Store.touch_fds _ p) hwire
  next p fd hp =>
    cases hstep
    exact h.thread_silent howned rfl rfl rfl rfl rfl trivial
  next p fd opcode payload db hp =>
    rw [hp] at hwire
    cases hstep
    refine h.thread_silent howned rfl rfl rfl rfl rfl ?_
    split <;> exact hwire
  next p hp =>
    cases hstep
    exact h.thread_silent howned rfl rfl rfl rfl (Store.markDead_fds _ p) trivial
  next p hp =>
    rw [hp] at hat
    obtain ⟨rfl, n, hx⟩ := hat
    have haddr : (st p.conn).addr? = some p.addr := hx ▸ rfl
    have hfd : s.store.fds n = some p.conn := h.owned.store.fds_of_stage (hx ▸ rfl)
    cases hstep
    refine h.thread_move (k := p.conn) howned (fun j hj => ⟨?_, rfl, rfl⟩) rfl ?_ id
      (h.first _) ?_
    · exact Function.update_of_ne hj _ _
    · rintro m j ⟨b, hb, hj⟩ hm
      have hne : b.pc.target ≠ some p.conn := by
        simpa only [Server.meetsReadyClients, hp, hb, decide_eq_true_eq] using hguard
      show (s.store.closeOf p).fds m = some j
      unfold Store.closeOf
      rw [h.owned.store.touch haddr, h.owned.store.load_fd haddr (n := n) (hx ▸ rfl)]
      exact Store.close_fds hfd hm fun e => hne (e ▸ hj)
    · show WireAt _ _ (Function.update s.thread p.conn _ p.conn)
      rw [Function.update_self]
      trivial
  next p hp =>
    split at hstep
    · cases hstep
      exact h.thread_silent howned rfl rfl rfl rfl (Store.clientRemove_fds _ p) trivial
    · cases hstep
  next p hp =>
    cases hstep
    exact h.thread_silent howned rfl rfl rfl rfl (Store.free_fds _ p) trivial
  next => cases hstep

/-- `accept_thread` or `ws_server_stop` moves: nothing is sent, and the clients
past their handshake keep their descriptors. -/
theorem other_move (h : Ordered st s) (howned : Owned st' s')
    (hthread : ∀ j, WireAt (s.wire j) (s.outcome j) (s'.thread j)) (hwires : s'.wire = s.wire)
    (houtcome : s'.outcome = s.outcome) (hbcast : s'.bcast = s.bcast)
    (hfds : ∀ n j, (s.outcome j).completed? = true → s.store.fds n = some j →
      s'.store.fds n = some j) : Ordered st' s' := by
  refine ⟨howned, fun j => ?_, fun j => ?_, fun b hb => ?_⟩
  · rw [hwires, houtcome]
    exact h.first j
  · rw [hwires, houtcome]
    exact hthread j
  · rw [hbcast] at hb
    refine (h.target b hb).congr fun j _ hdone => ⟨?_, fun n => hfds n j hdone⟩
    rw [houtcome]
    exact hdone

theorem other_silent (h : Ordered st s) (howned : Owned st' s')
    (hthread : s'.thread = s.thread) (hwires : s'.wire = s.wire)
    (houtcome : s'.outcome = s.outcome) (hbcast : s'.bcast = s.bcast)
    (hfds : s'.store.fds = s.store.fds) : Ordered st' s' :=
  h.other_move howned (hthread ▸ h.wires) hwires houtcome hbcast fun _ _ _ hn => hfds ▸ hn

theorem accept_step {c : Choice} (h : Ordered st s) (howned : Owned st' s')
    (hstep : s.acceptStep c = some s') : Ordered st' s' := by
  have hat := h.owned.accept
  -- What `accept_thread` closes is the descriptor of a connection without a thread.
  have hcloses : ∀ {n : Fd} {k : ConnId}, s.accept.holds = some k → (st k).fd? = some n →
      ∀ m j, (s.outcome j).completed? = true → s.store.fds m = some j →
        (s.store.close n k).fds m = some j := by
    intro n k hheld hn m j hdone hm
    apply Store.close_fds (h.owned.store.fds_of_stage hn) hm
    intro e
    have hwire := h.wires k
    rw [h.owned.held k hheld] at hwire
    rw [e, hwire.2] at hdone
    cases hdone
  unfold Server.acceptStep at hstep
  split at hstep
  next =>
    cases hstep
    exact h.other_silent howned rfl rfl rfl rfl rfl
  next =>
    cases hstep
    exact h.other_silent howned rfl rfl rfl rfl rfl
  next n hp =>
    split at hstep
    next hfree =>
      cases hstep
      refine h.other_move howned h.wires rfl rfl rfl fun m j _ hm => ?_
      refine (Function.update_of_ne (fun e => ?_) _ _).trans hm
      rw [e, hfree] at hm
      cases hm
    next => cases hstep
  next n k hp =>
    cases hstep
    exact h.other_silent howned rfl rfl rfl rfl rfl
  next n k hp =>
    rw [hp] at hat
    have hx : st k = .opened n := hat
    cases hstep
    exact h.other_move howned h.wires rfl rfl rfl (hcloses (hp ▸ rfl) (hx ▸ rfl))
  next n k r hp =>
    split at hstep
    next => cases hstep
    next =>
      cases hstep
      exact h.other_silent howned rfl rfl rfl rfl rfl
  next p n hp =>
    split at hstep
    next =>
      cases hstep
      exact h.other_silent howned rfl rfl rfl rfl (Store.push_fds _ p)
    next => cases hstep
  next p n hp =>
    cases hstep
    refine h.other_move howned (fun j => ?_) rfl rfl rfl fun m j _ hm =>
      (congrFun (Store.touch_fds _ p) m).trans hm
    show WireAt _ _ (Function.update s.thread p.conn _ j)
    by_cases hj : j = p.conn
    · have hwire := h.wires p.conn
      rw [h.owned.held p.conn (hp ▸ rfl)] at hwire
      rw [hj, Function.update_self]
      exact hwire
    · rw [Function.update_of_ne hj]
      exact h.wires j
  next p n hp =>
    cases hstep
    exact h.other_silent howned rfl rfl rfl rfl (Store.touch_fds _ p)
  next p hp =>
    cases hstep
    exact h.other_silent howned rfl rfl rfl rfl (Store.touch_fds _ p)
  next p n hp =>
    cases hstep
    exact h.other_silent howned rfl rfl rfl rfl (Store.markDead_fds _ p)
  next p n hp =>
    rw [hp] at hat
    have hx : st p.conn = .doomed p.addr n := hat
    cases hstep
    exact h.other_move howned h.wires rfl rfl rfl (hcloses (hp ▸ rfl) (hx ▸ rfl))
  next p hp =>
    split at hstep
    next =>
      cases hstep
      exact h.other_silent howned rfl rfl rfl rfl (Store.clientRemove_fds _ p)
    next => cases hstep
  next p hp =>
    cases hstep
    exact h.other_silent howned rfl rfl rfl rfl (Store.free_fds _ p)
  next => cases hstep

theorem stop_step {c : Choice} (h : Ordered st s) (howned : Owned st' s')
    (hguard : s.respectsOwner (.stop c) = true) (hstep : s.stopStep c = some s') :
    Ordered st' s' := by
  have hat := h.owned.stop
  unfold Server.stopStep at hstep
  split at hstep
  next =>
    cases hstep
    exact h.other_silent howned rfl rfl rfl rfl rfl
  next =>
    split at hstep
    · cases hstep
      exact h.other_silent howned rfl rfl rfl rfl rfl
    · cases hstep
  next =>
    split at hstep
    · cases hstep
      exact h.other_silent howned rfl rfl rfl rfl rfl
    · cases hstep
  next =>
    cases hstep
    exact h.other_silent howned rfl rfl rfl rfl rfl
  next p todo hp =>
    rw [hp] at hat
    cases hat
  next p todo hp =>
    rw [hp] at hat
    exact hat.elim
  next p todo hp =>
    rw [hp] at hat
    exact hat.elim
  next p todo hp =>
    rw [hp] at hat
    exact hat.elim
  next => cases hstep

/-- A broadcast moves and sends nothing. -/
theorem bcast_silent {b' : Option Broadcast} (h : Ordered st s) (howned : Owned st' s')
    (hbcast : s'.bcast = b') (htarget : ∀ b, b' = some b → TargetAt s b.pc)
    (hthread : s'.thread = s.thread) (hwires : s'.wire = s.wire)
    (houtcome : s'.outcome = s.outcome) (hfds : s'.store.fds = s.store.fds) :
    Ordered st' s' := by
  refine ⟨howned, ?_, ?_, fun b hb => ?_⟩
  · rw [hwires, houtcome]
    exact h.first
  · rw [hwires, houtcome, hthread]
    exact h.wires
  · rw [hbcast] at hb
    exact (htarget b hb).congr fun j _ hdone => ⟨houtcome ▸ hdone, fun n hn => hfds ▸ hn⟩

/-- A broadcast sends to a client that is past its handshake. -/
theorem bcast_frame {b' : Option Broadcast} {call : FrameCall} {bytes : Bytes}
    (h : Ordered st s) (howned : Owned st' s') (hdone : (s.outcome k).completed? = true)
    (hbcast : s'.bcast = b') (htarget : ∀ b, b' = some b → TargetAt s b.pc)
    (hthread : s'.thread = s.thread)
    (hwires : s'.wire = Function.update s.wire k (s.wire k ++ [.frame call bytes]))
    (houtcome : s'.outcome = s.outcome) (hfds : s'.store.fds = s.store.fds) :
    Ordered st' s' := by
  refine ⟨howned, fun j => ?_, fun j => ?_, fun b hb => ?_⟩
  · rw [hwires, houtcome, Function.update_apply]
    by_cases hj : j = k
    · rw [if_pos hj, hj]
      exact (h.first k).frame hdone call bytes
    · rw [if_neg hj]
      exact h.first j
  · rw [hwires, houtcome, hthread, Function.update_apply]
    have hwire := h.wires j
    by_cases hj : j = k
    · rw [if_pos hj]
      -- Past the handshake the position of the thread says nothing about the wire.
      rw [hj] at hwire ⊢
      generalize s.thread k = pc at hwire ⊢
      generalize s.outcome k = o at hwire hdone ⊢
      cases pc with
      | absent | start _ | handshake _ _ _ | respond _ _ _ _ =>
        have ho : o = .pending := by first | exact hwire.2 | exact hwire.1
        rw [ho] at hdone
        cases hdone
      | _ => exact hwire
    · rw [if_neg hj]
      exact hwire
  · rw [hbcast] at hb
    exact (htarget b hb).congr fun j _ hdone => ⟨houtcome ▸ hdone, fun n hn => hfds ▸ hn⟩

theorem bcast_step {c : Choice} (h : Ordered st s) (howned : Owned st' s')
    (hguard : s.respectsOwner (.bcast c) = true)
    (hready : s.meetsReadyClients (.bcast c) = true) (hstep : s.bcastStep c = some s') :
    Ordered st' s' := by
  unfold Server.bcastStep at hstep
  split at hstep
  next => cases hstep
  next b hb =>
    have hat := h.owned.bcast b hb
    have htarget := h.target b hb
    obtain ⟨msg, pc⟩ := b
    dsimp only at hstep hat htarget
    have hsilent : ∀ {m : Server} {pc : BcastPc}, Owned st' m →
        m.bcast = some ⟨msg, pc⟩ → TargetAt s pc → m.thread = s.thread → m.wire = s.wire →
        m.outcome = s.outcome → m.store.fds = s.store.fds → Ordered st' m :=
      fun ho hb' ht => h.bcast_silent ho hb' fun b e => by cases e; exact ht
    split at hstep
    next =>
      cases hstep
      exact h.bcast_silent howned rfl (fun b e => by cases e) rfl rfl rfl rfl
    next seen p rest =>
      have hmem : p ∈ s.store.clients :=
        hat ▸ List.mem_append_right seen List.mem_cons_self
      have halive : (s.store.load p).alive = true := by
        simpa only [Server.respectsOwner, hb] using hguard
      have hdone : (s.outcome p.conn).completed? = true := by
        simpa only [Server.meetsReadyClients, hb] using hready
      rw [h.owned.store.load_alive (h.owned.store.addr_of_mem hmem)] at halive
      obtain ⟨n, hx⟩ := Stage.listed_of_alive (h.owned.store.onList_of_mem hmem) halive
      cases hstep
      refine hsilent howned rfl ?_ rfl rfl rfl (Store.touch_fds _ p)
      split
      · exact ⟨hdone, n, h.owned.store.fds_of_stage (hx ▸ rfl)⟩
      · trivial
    next seen p rest =>
      have hmem : p ∈ s.store.clients :=
        hat ▸ List.mem_append_right seen List.mem_cons_self
      obtain ⟨hdone, n, hn⟩ := htarget
      have hfd := h.owned.store.load_fd (h.owned.store.addr_of_mem hmem)
        ((h.owned.store.fds n p.conn).mp hn)
      cases hstep
      exact hsilent howned rfl ⟨hdone, hfd ▸ hn⟩ rfl rfl rfl (Store.touch_fds _ p)
    next =>
      simp only [Server.respectsOwner, hb, Bool.false_eq_true] at hguard
    next seen p rest fd out w =>
      obtain ⟨hdone, hfd⟩ := htarget
      split at hstep
      · cases hstep
      · rw [Server.write_eq hfd, Option.map_some] at hstep
        cases hadv : out.advance w with
        | some out' =>
          rw [hadv] at hstep
          cases hstep
          exact h.bcast_frame howned hdone rfl (fun b e => by cases e; exact ⟨hdone, hfd⟩)
            rfl rfl rfl rfl
        | none =>
          rw [hadv] at hstep
          cases hstep
          exact h.bcast_frame howned hdone rfl (fun b e => by cases e; trivial) rfl rfl rfl rfl
    next seen p rest =>
      cases hstep
      exact hsilent howned rfl trivial rfl rfl rfl (Store.touch_fds _ p)
    next => exact hat.elim
    next => exact hat.elim
    next => exact hat.elim
    next => exact hat.elim
    next => cases hstep

theorem init : Ordered (fun _ => .absent) Server.init where
  owned := Owned.init
  first := fun _ => .responding [] rfl rfl
  wires := fun _ => ⟨rfl, rfl⟩
  target := nofun

theorem step {a : Action} (h : Ordered st s) (hguard : s.respectsOwner a = true)
    (hready : s.meetsReadyClients a = true) (hstep : s.step a = some s') :
    ∃ st', Moves st st' ∧ Ordered st' s' := by
  obtain ⟨st', hmoves, howned⟩ := h.owned.step hguard hstep
  refine ⟨st', hmoves, ?_⟩
  cases a with
  | accept c => exact h.accept_step howned hstep
  | thread k c => exact h.thread_step howned hready hstep
  | bcast c => exact h.bcast_step howned hguard hready hstep
  | stop c => exact h.stop_step howned hguard hstep
  | bcastBegin msg =>
    obtain ⟨-, rfl⟩ := Server.bcastBegin_eq_some hstep
    exact h.bcast_silent howned rfl (fun b e => by cases e; trivial) rfl rfl rfl rfl

end Ordered

/-! ## Runs -/

/-- The steps the server takes while clients are only met when they are ready. -/
def Server.waitsForHandshake (s : Server) (a : Action) : Prop :=
  s.respectsOwner a = true ∧ s.meetsReadyClients a = true

instance (s : Server) (a : Action) : Decidable (s.waitsForHandshake a) :=
  inferInstanceAs (Decidable (_ ∧ _))

theorem ordered_of_run {as : List Action} {s : Server}
    (hg : Guarded Server.step Server.waitsForHandshake Server.init as)
    (h : exec Server.step Server.init as = some s) : ∃ st, Ordered st s :=
  exec_invariant (I := fun s => ∃ st, Ordered st s)
    (fun _ _ _ ⟨_, hI⟩ hguard hstep =>
      (hI.step hguard.1 hguard.2 hstep).imp fun _ hs => hs.2)
    ⟨_, Ordered.init⟩ hg h

/-- **The response comes before the first frame.** In a run whose broadcasts meet a client only
when its thread is past the handshake, and whose steps leave every record to its owner
(`waitsForHandshake`, a condition on the state before each step and on the action), every wire
carries the bytes of the handshake first; and if there is any frame on it, the handshake was
completed, its response begins with `HTTP/1.1 101`, and all of it stands before the first frame.
The run is any other than that: any number of connections, any answers of the system calls. -/
theorem handshake_before_data_of_guarded (as : List Action) (s : Server)
    (hg : Guarded Server.step Server.waitsForHandshake Server.init as)
    (h : exec Server.step Server.init as = some s) : s.HandshakeBeforeData := by
  obtain ⟨_, hI⟩ := ordered_of_run hg h
  exact fun k => (hI.first k).handshakeThenFrames

/-- A request, cut in two, and the broadcast after the handshake is over. -/
def handshakeRequest : Bytes :=
  ascii "GET / HTTP/1.1\r\nSec-WebSocket-Key: dGhlIHNhbXBsZSBub25jZQ==\r\n\r\n"

def handshakeThenBroadcast : List Action :=
  [.accept .go, .accept (.opened 5), .accept (.allocated 0), .accept .go, .accept .go,
   .thread 0 .go, .thread 0 (.chunk (handshakeRequest.take 20)),
   .thread 0 (.chunk (handshakeRequest.drop 20)), .thread 0 (.sent 129),
   .bcastBegin (ascii "\x7b\x7d"), .bcast .go, .bcast .go, .bcast (.sent 2)]

theorem handshake_then_broadcast_ordered :
    ∃ s, exec Server.step Server.init handshakeThenBroadcast = some s ∧
      s.HandshakeBeforeData ∧ (s.wire 0).length = 2 := by
  have hrun : (exec Server.step Server.init handshakeThenBroadcast).map
      (fun s => (s.wire 0).length) = some 2 := by decide +kernel
  obtain ⟨s, hs, hend⟩ := Option.map_eq_some_iff.mp hrun
  exact ⟨s, hs, handshake_before_data_of_guarded handshakeThenBroadcast s
    (by decide +kernel) hs, hend⟩

/-- One client is accepted, and a broadcast runs while its thread still waits for
the request. -/
def broadcastToNewClient : List Action :=
  [.accept .go, .accept (.opened 5), .accept (.allocated 0), .accept .go, .accept .go,
   .thread 0 .go, .bcastBegin (ascii "\x7b\x7d"), .bcast .go, .bcast .go, .bcast (.sent 2)]

/-- The client is on the list before its handshake, so it gets the frame first. -/
theorem frame_before_handshake :
    ∃ s, exec Server.step Server.init broadcastToNewClient = some s ∧
      ¬ s.HandshakeBeforeData := by
  have hrun : (exec Server.step Server.init broadcastToNewClient).map
      (fun s => (s.wire 0, s.outcome 0)) =
        some ([.frame ⟨0, [0x81, 2, 123, 125]⟩ [0x81, 2]], .pending) := by decide
  obtain ⟨s, hs, hend⟩ := Option.map_eq_some_iff.mp hrun
  obtain ⟨hwire, houtcome⟩ := Prod.mk.inj hend
  refine ⟨s, hs, fun h => ?_⟩
  obtain ⟨sent, frames, hsplit, hdone⟩ := h 0
  rw [houtcome] at hdone
  have hnone : frames = [] := by
    by_contra hne
    obtain ⟨http, hcompleted, _⟩ := hdone hne
    cases hcompleted
  rw [hwire, hnone, List.map_nil, List.append_nil] at hsplit
  cases sent with
  | nil => cases hsplit
  | cons b sent => cases hsplit

end TelemetryTestbed.WebSocket
