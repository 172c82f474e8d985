import TelemetryTestbed.Laws.WebSocket.Steps

/-!
# The connections of the descriptors and of the records

A record names the connection and the descriptor it was allocated for, and goes
on naming them after its release, until its address is handed out again. No
pointer leads to a cell that was never allocated, so no step makes up such a name,
and a party that closes through a record that is still that of its connection
closes the connection (`Recorded.closed_of_named`). This holds of every run, also
of those in which a client is used after its release.

It is what remains true without any condition, and so it is where the proofs about bad runs
start: a record that was released may belong to a new connection by now, and then its name
says so.
-/

namespace TelemetryTestbed.WebSocket

open TelemetryTestbed.Lib

/-- The connection was accepted, and no descriptor leads to it any more. -/
def Server.Closed (s : Server) (k : ConnId) : Prop :=
  k < s.store.nextConn ∧ ∀ n, s.store.fds n ≠ some k

theorem Server.Closed.keeps {s s' : Server} {k : ConnId} (h : s.Closed k)
    (hstore : s.store.Keeps s'.store) : s'.Closed k :=
  ⟨hstore.nextConn.symm ▸ h.1, fun n hn => h.2 n (hstore.fds n k hn)⟩

/-- The invariant of all runs. A descriptor, and the name in a record, belong to a connection
that was accepted; a record that names a connection names the only descriptor that can be open
for it; and no pointer that a party has leads to a cell that never was a record. -/
structure Recorded (s : Server) : Prop where
  conns : ∀ n k, s.store.fds n = some k → k < s.store.nextConn
  accepted : ∀ n k, s.accept = .accepted n k →
    k < s.store.nextConn ∧ ∀ m, s.store.fds m = some k → m = n
  records : ∀ r k n, (s.store.heap r).named? = some (k, n) →
    k < s.store.nextConn ∧ ∀ m, s.store.fds m = some k → m = n
  points : ∀ p, s.Points p → (s.store.heap p.addr).named? ≠ none
  idle : ∀ k, s.store.nextConn ≤ k → s.thread k = .absent
  held : ∀ k, s.accept.holds = some k → k < s.store.nextConn ∧ s.thread k = .absent

namespace Recorded

variable {s s' : Server} {k : ConnId} {pc : ThreadPc} {c : Choice}

theorem init : Recorded Server.init where
  conns := nofun
  accepted := nofun
  records := nofun
  points := by
    intro p hp
    cases hp with
    | thread _ h | accept h | bcast _ h => cases h
    | client h | stop h => exact absurd h List.not_mem_nil
  idle := fun _ _ => rfl
  held := nofun

/-- A step that adds no connection and no record. -/
theorem change (h : Recorded s) (hstore : s.store.Change s.Points s'.store)
    (hpoints : ∀ q, s'.Points q → s.Points q)
    (haccepted : ∀ n j, s'.accept = .accepted n j → s.accept = .accepted n j)
    (hidle : ∀ j, s.store.nextConn ≤ j → s'.thread j = .absent)
    (hheld : ∀ j, s'.accept.holds = some j → j < s.store.nextConn ∧ s'.thread j = .absent) :
    Recorded s' := by
  obtain ⟨hconn, hfds, hnamed⟩ := hstore.keeps h.points
  refine ⟨fun n j hj => ?_, fun n j hj => ?_, fun r j n hj => ?_, fun p hp => ?_,
    fun j hj => ?_, fun j hj => ?_⟩
  · rw [hconn]
    exact h.conns n j (hfds n j hj)
  · obtain ⟨hlt, honly⟩ := h.accepted n j (haccepted n j hj)
    exact ⟨hconn ▸ hlt, fun m hm => honly m (hfds m j hm)⟩
  · rw [hnamed] at hj
    obtain ⟨hlt, honly⟩ := h.records r j n hj
    exact ⟨hconn ▸ hlt, fun m hm => honly m (hfds m j hm)⟩
  · rw [hnamed]
    exact h.points p (hpoints p hp)
  · exact hidle j (hconn ▸ hj)
  · rw [hconn]
    exact hheld j hj

/-- A step that changes the store through known pointers: the list of clients. -/
theorem clients_points (h : s.store.Change s.Points s'.store) :
    ∀ q ∈ s'.store.clients, s.Points q :=
  h.clients fun _ hq => .client hq

theorem thread_step (h : Recorded s) (hto : s.ThreadTo s' k pc) : Recorded s' := by
  obtain ⟨p, hp, hpc⟩ := hto.ptr
  have hmoves : s.thread k ≠ .absent := fun e => by
    rw [e] at hp
    cases hp
  have habsent : ∀ j, s.thread j = .absent → s'.thread j = .absent := by
    intro j hj
    rw [hto.thread, Function.update_of_ne, hj]
    rintro rfl
    exact hmoves hj
  refine h.change hto.store ?_ (fun n j e => hto.accept ▸ e)
    (fun j hj => habsent j (h.idle j hj)) (fun j hj => ?_)
  · intro q hq
    cases hq with
    | thread j hj =>
      rw [hto.thread, Function.update_apply] at hj
      split at hj
      · rcases hpc with e | rfl
        · exact .thread k (hp.trans (e.symm.trans hj))
        · cases hj
      · exact .thread j hj
    | accept hq => exact .accept (hto.accept ▸ hq)
    | client hq => exact clients_points hto.store q hq
    | bcast b hb hq => exact .bcast b (hto.bcast ▸ hb) hq
    | stop hq => exact .stop (hto.stop ▸ hq)
  · obtain ⟨hlt, hthread⟩ := h.held j (hto.accept ▸ hj)
    exact ⟨hlt, habsent j hthread⟩

theorem bcast_step (h : Recorded s) (hto : s.BcastTo s') : Recorded s' := by
  refine h.change hto.store ?_ (fun n j e => hto.accept ▸ e)
    (fun j hj => hto.thread ▸ h.idle j hj) (fun j hj => hto.thread ▸ h.held j (hto.accept ▸ hj))
  intro q hq
  cases hq with
  | thread j hq => exact .thread j (hto.thread ▸ hq)
  | accept hq => exact .accept (hto.accept ▸ hq)
  | client hq => exact clients_points hto.store q hq
  | bcast b hb hq => exact hto.ptrs b hb q hq
  | stop hq => exact .stop (hto.stop ▸ hq)

theorem stop_step (h : Recorded s) (hstep : s.stopStep c = some s') : Recorded s' := by
  obtain ⟨_, hbcast, _, hthread⟩ := Server.stopStep_frame hstep
  obtain ⟨haccept, hptrs, hstore⟩ := Server.stopStep_event hstep
  refine h.change hstore ?_ (fun n j e => haccept ▸ e) (fun j hj => hthread ▸ h.idle j hj)
    (fun j hj => hthread ▸ h.held j (haccept ▸ hj))
  intro q hq
  cases hq with
  | thread j hq => exact .thread j (hthread ▸ hq)
  | accept hq => exact .accept (haccept ▸ hq)
  | client hq => exact clients_points hstore q hq
  | bcast b hb hq => exact .bcast b (hbcast ▸ hb) hq
  | stop hq => exact hptrs q hq

theorem bcastBegin {msg : Bytes} (h : Recorded s) (hstep : s.bcastBegin msg = some s') :
    Recorded s' := by
  obtain ⟨-, rfl⟩ := Server.bcastBegin_eq_some hstep
  refine h.change .same ?_ (fun _ _ e => e) h.idle h.held
  intro q hq
  cases hq with
  | thread j hq => exact .thread j hq
  | accept hq => exact .accept hq
  | client hq => exact .client hq
  | bcast b hb hq =>
    cases hb
    exact .client hq
  | stop hq => exact .stop hq

/-- A new connection takes a number that no other party knows. -/
theorem opened {n : Fd} (h : Recorded s) (hthread : s'.thread = s.thread)
    (hbcast : s'.bcast = s.bcast) (hstop : s'.stop = s.stop)
    (hpc : s'.accept = .accepted n s.store.nextConn)
    (hstore : s'.store = s.store.accepted n) : Recorded s' := by
  have hfds : ∀ m j, s'.store.fds m = some j →
      m = n ∧ j = s.store.nextConn ∨ s.store.fds m = some j ∧ j < s.store.nextConn := by
    intro m j hm
    rw [hstore] at hm
    replace hm : Function.update s.store.fds n (some s.store.nextConn) m = some j := hm
    rw [Function.update_apply] at hm
    split at hm
    next e => exact Or.inl ⟨e, (Option.some.inj hm).symm⟩
    next => exact Or.inr ⟨hm, h.conns m j hm⟩
  have hconn : s'.store.nextConn = s.store.nextConn + 1 := by
    rw [hstore]
    rfl
  have hheap : s'.store.heap = s.store.heap := by
    rw [hstore]
    rfl
  have hclients : s'.store.clients = s.store.clients := by
    rw [hstore]
    rfl
  refine ⟨fun m j hm => ?_, fun m j e => ?_, fun r j m hr => ?_, fun p hp => ?_,
    fun j hj => ?_, fun j hj => ?_⟩
  · rw [hconn]
    rcases hfds m j hm with ⟨_, rfl⟩ | ⟨_, hlt⟩
    · exact Nat.lt_succ_self _
    · exact Nat.lt_succ_of_lt hlt
  · rw [hpc] at e
    cases e
    rw [hconn]
    refine ⟨Nat.lt_succ_self _, fun m hm => ?_⟩
    rcases hfds m _ hm with ⟨rfl, _⟩ | ⟨_, hlt⟩
    · rfl
    · exact absurd hlt (Nat.lt_irrefl _)
  · rw [hheap] at hr
    obtain ⟨hlt, honly⟩ := h.records r j m hr
    rw [hconn]
    refine ⟨Nat.lt_succ_of_lt hlt, fun i hi => ?_⟩
    rcases hfds i j hi with ⟨_, rfl⟩ | ⟨hi, _⟩
    · exact absurd hlt (Nat.lt_irrefl _)
    · exact honly i hi
  · rw [hheap]
    apply h.points p
    cases hp with
    | thread j hq => exact .thread j (hthread ▸ hq)
    | accept hq =>
      rw [hpc] at hq
      cases hq
    | client hq => exact .client (hclients ▸ hq)
    | bcast b hb hq => exact .bcast b (hbcast ▸ hb) hq
    | stop hq => exact .stop (hstop ▸ hq)
  · rw [hconn] at hj
    rw [hthread]
    exact h.idle j (Nat.le_of_succ_le hj)
  · rw [hpc] at hj
    cases hj
    rw [hconn, hthread]
    exact ⟨Nat.lt_succ_self _, h.idle _ (Nat.le_refl _)⟩

/-- A new record names the connection and the descriptor it is allocated for. -/
theorem allocated {n : Fd} {r : Addr} (h : Recorded s) (hp : s.accept = .accepted n k)
    (hthread : s'.thread = s.thread) (hbcast : s'.bcast = s.bcast)
    (hstop : s'.stop = s.stop) (hpc : s'.accept = .register ⟨r, k⟩ n)
    (hstore : s'.store = s.store.alloc r n k) : Recorded s' := by
  have hfds : s'.store.fds = s.store.fds := by
    rw [hstore]
    rfl
  have hconn : s'.store.nextConn = s.store.nextConn := by
    rw [hstore]
    rfl
  have hclients : s'.store.clients = s.store.clients := by
    rw [hstore]
    rfl
  have hheap : ∀ a, (s'.store.heap a).named? =
      if a = r then some (k, n) else (s.store.heap a).named? := by
    intro a
    rw [hstore]
    show (Function.update s.store.heap r (.live ⟨n, true, k⟩) a).named? = _
    rw [Function.update_apply]
    split <;> rfl
  refine ⟨fun m j hm => ?_, fun m j e => ?_, fun a j m ha => ?_, fun p hp' => ?_,
    fun j hj => ?_, fun j hj => ?_⟩
  · rw [hfds] at hm
    rw [hconn]
    exact h.conns m j hm
  · rw [hpc] at e
    cases e
  · rw [hconn, hfds]
    rw [hheap] at ha
    split at ha
    · cases ha
      exact h.accepted n k hp
    · exact h.records a j m ha
  · rw [hheap]
    split
    · exact nofun
    next hne =>
      apply h.points p
      cases hp' with
      | thread j hq => exact .thread j (hthread ▸ hq)
      | accept hq =>
        rw [hpc] at hq
        cases hq
        exact absurd rfl hne
      | client hq => exact .client (hclients ▸ hq)
      | bcast b hb hq => exact .bcast b (hbcast ▸ hb) hq
      | stop hq => exact .stop (hstop ▸ hq)
  · rw [hthread]
    exact h.idle j (hconn ▸ hj)
  · rw [hpc] at hj
    cases hj
    rw [hconn, hthread]
    exact h.held k (hp ▸ rfl)

theorem accept_step (h : Recorded s) (hstep : s.acceptStep c = some s') : Recorded s' := by
  obtain ⟨_, hbcast, _, _⟩ := Server.acceptStep_frame hstep
  obtain ⟨hstop, hevent⟩ := Server.acceptStep_event hstep
  cases hevent with
  | quiet hthread hptr hholds hpc hstore =>
    refine h.change hstore ?_ (fun n j e => absurd e (hpc n j))
      (fun j hj => hthread ▸ h.idle j hj) (fun j hj => hthread ▸ h.held j (hholds j hj))
    intro q hq
    cases hq with
    | thread j hq => exact .thread j (hthread ▸ hq)
    | accept hq => exact .accept (hptr q hq)
    | client hq => exact clients_points hstore q hq
    | bcast b hb hq => exact .bcast b (hbcast ▸ hb) hq
    | stop hq => exact .stop (hstop ▸ hq)
  | opened hthread hfree hpc hstore => exact h.opened hthread hbcast hstop hpc hstore
  | allocated hp hthread hpc hstore =>
    exact h.allocated hp hthread hbcast hstop hpc hstore
  | @created p n hp hthread hpc hstore =>
    have hholds : s.accept.holds = some p.conn := hp ▸ rfl
    have htouch : s.store.Change s.Points s'.store := hstore ▸ .touch p
    refine h.change htouch ?_ (fun n j e => ?_) (fun j hj => ?_) (fun j hj => ?_)
    · intro q hq
      cases hq with
      | thread j hj =>
        rw [hthread, Function.update_apply] at hj
        split at hj
        · cases hj
          exact .accept (hp ▸ rfl)
        · exact .thread j hj
      | accept hq =>
        rw [hpc] at hq
        exact .accept (hp ▸ hq)
      | client hq => exact clients_points htouch q hq
      | bcast b hb hq => exact .bcast b (hbcast ▸ hb) hq
      | stop hq => exact .stop (hstop ▸ hq)
    · rw [hpc] at e
      cases e
    · have hlt := (h.held p.conn hholds).1
      have hne : j ≠ p.conn := fun e => Nat.not_le_of_lt hlt (e ▸ hj)
      rw [hthread, Function.update_of_ne hne]
      exact h.idle j hj
    · rw [hpc] at hj
      cases hj

theorem step {a : Action} (h : Recorded s) (hstep : s.step a = some s') : Recorded s' := by
  cases a with
  | accept c => exact h.accept_step hstep
  | thread k c =>
    obtain ⟨_, hto, _⟩ := Server.threadStep_event hstep
    exact h.thread_step hto
  | bcastBegin msg => exact h.bcastBegin hstep
  | bcast c => exact h.bcast_step (Server.bcastStep_event hstep).1
  | stop c => exact h.stop_step hstep

/-- `close(c->fd)` through a record that is still that of its connection. -/
theorem closed_of_named (h : Recorded s) {p : Ptr}
    (hp : (s.store.heap p.addr).named?.map Prod.fst = some k)
    (hstore : s'.store = s.store.closeOf p) : s'.Closed k := by
  obtain ⟨⟨j, m⟩, hnamed, rfl⟩ := Option.map_eq_some_iff.mp hp
  obtain ⟨hlt, honly⟩ := h.records p.addr j m hnamed
  unfold Server.Closed
  rw [hstore, (Store.keeps_closeOf s.store p).nextConn]
  refine ⟨hlt, fun n hn => ?_⟩
  have hfd : (s.store.load p).fd = m := by
    rw [Store.load]
    cases hcell : s.store.heap p.addr with
    | fresh =>
      rw [hcell] at hnamed
      cases hnamed
    | live c | released c =>
      rw [hcell] at hnamed
      cases hnamed
      rfl
  replace hn : Function.update (s.store.touch p).fds (s.store.load p).fd none n = some j := hn
  rw [Store.touch_fds, hfd, Function.update_apply] at hn
  split at hn
  next => cases hn
  next hne => exact hne (honly n hn)

/-- A closed connection stays closed. -/
theorem closed_step {a : Action} (h : Recorded s) (hstep : s.step a = some s')
    (hk : s.Closed k) : s'.Closed k := by
  cases a with
  | thread j c =>
    obtain ⟨_, hto, _⟩ := Server.threadStep_event hstep
    exact hk.keeps (hto.store.keeps h.points)
  | bcast c => exact hk.keeps ((Server.bcastStep_event hstep).1.store.keeps h.points)
  | stop c =>
    obtain ⟨_, _, hstore⟩ := Server.stopStep_event hstep
    exact hk.keeps (hstore.keeps h.points)
  | bcastBegin msg =>
    obtain ⟨-, rfl⟩ := Server.bcastBegin_eq_some hstep
    exact hk
  | accept c =>
    obtain ⟨_, hevent⟩ := Server.acceptStep_event hstep
    cases hevent with
    | quiet _ _ _ _ hstore => exact hk.keeps (hstore.keeps h.points)
    | created _ _ _ hstore => exact hk.keeps (hstore ▸ Store.keeps_touch _ _)
    | allocated _ _ _ hstore =>
      unfold Server.Closed
      rw [hstore]
      exact hk
    | @opened n _ _ _ hstore =>
      unfold Server.Closed
      rw [hstore]
      refine ⟨Nat.lt_succ_of_lt hk.1, fun m hm => ?_⟩
      replace hm : Function.update s.store.fds n (some s.store.nextConn) m = some k := hm
      rw [Function.update_apply] at hm
      split at hm
      · exact absurd hk.1 (Option.some.inj hm ▸ Nat.lt_irrefl _)
      · exact hk.2 m hm

end Recorded

end TelemetryTestbed.WebSocket
