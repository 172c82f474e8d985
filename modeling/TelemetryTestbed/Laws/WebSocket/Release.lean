import TelemetryTestbed.Laws.WebSocket.Lifecycle

/-!
# Every client is closed and released once, by its own thread

The invariant of the machine: a stage for every connection (`Consistent`), the
thread that owns the connection at that stage, and a broadcast that walks over
the list as it stands. It is kept by every step that leaves records to their
owners (`respectsOwner`), and the machine then refines the lifecycle of
`Stage.Next`.

A broadcast that removes a client, a `ws_server_stop` that still finds clients
on the list, and a `client_thread` that frees its record before `accept_thread`
has detached it are the steps outside the condition: each releases a record
somebody else goes on to use.

What is proved is one direction, that the condition is enough in every run. The converse is
not stated: a run in which a record is released twice has taken one of the three steps, but a
run may take one and come off well.
-/

namespace TelemetryTestbed.WebSocket

open TelemetryTestbed.Lib

/-! ## The condition and the property -/

/-- The step leaves every record to the thread that owns it. What is left out is what releases a
record that another party goes on to use: a broadcast that comes to a client that is not alive
or whose `send` fails, the end of the server while clients are on the list, and a thread that
frees its record before `accept_thread` is through with it. -/
def Server.respectsOwner (s : Server) : Action → Bool
  | .bcast c =>
    match s.bcast, c with
    | some ⟨_, .visit _ (p :: _)⟩, _ => (s.store.load p).alive
    | some ⟨_, .sending _ _ _ _ _⟩, .failed => false
    | _, _ => true
  | .stop _ => s.stop ≠ .take || s.store.clients.isEmpty
  | .thread k _ =>
    match s.thread k, s.accept with
    | .free _, .detach q => q.conn ≠ k
    | _, _ => true
  | _ => true

/-- Every thread has ended and `ws_server_stop` has returned. -/
def Server.Ended (s : Server) : Prop :=
  s.accept = .done ∧ (∀ k, s.thread k = .absent ∨ s.thread k = .done) ∧
    s.bcast = none ∧ s.stop = .returned

/-- What the life of a client should be: no connection is closed or released twice, nothing is
used behind its release, and in the end all are closed and every record is released. -/
structure Server.ClientsReleasedOnce (s : Server) : Prop where
  closed : ∀ k, s.store.closes k ≤ 1
  released : ∀ k, s.store.releases k ≤ 1
  noFault : s.store.faults = []
  ended : s.Ended → ∀ k, k < s.store.nextConn →
    s.store.closes k = 1 ∧ s.store.releases k = s.store.allocs k

/-- A broadcast begins at the head of the list, where none is under way. -/
theorem Server.bcastBegin_eq_some {s s' : Server} {msg : Bytes} (h : s.bcastBegin msg = some s') :
    s.bcast = none ∧ s' = { s with bcast := some ⟨msg, .visit [] s.store.clients⟩ } := by
  obtain ⟨⟨hnone, -⟩, h⟩ := Option.ite_none_right_eq_some.mp h
  exact ⟨hnone, (Option.some.inj h).symm⟩

/-! ## The invariant -/

/-- Every connection stays at its stage or goes one stage on. -/
def Moves (st st' : ConnId → Stage) : Prop :=
  ∀ j, st' j = st j ∨ (st j).Next (st' j)

theorem Moves.refl (st : ConnId → Stage) : Moves st st := fun _ => Or.inl rfl

theorem Moves.update {st : ConnId → Stage} {k : ConnId} {y : Stage} (h : (st k).Next y) :
    Moves st (Function.update st k y) := by
  intro j
  rw [Function.update_apply]
  by_cases hj : j = k
  · rw [if_pos hj, hj]
    exact Or.inr h
  · rw [if_neg hj]
    exact Or.inl rfl

/-- The connection `accept_thread` has not handed over yet. -/
def AcceptPc.holds : AcceptPc → Option ConnId
  | accepted _ k | drop _ k => some k
  | register p _ | create p _ | failMark p _ | failClose p _ | failRemove p | failFree p =>
    some p.conn
  | _ => none

/-- The stage `accept_thread` has brought a connection to. -/
def AcceptAt (st : ConnId → Stage) : AcceptPc → Prop
  | .accepted n k | .drop n k => st k = .opened n
  | .register p n => st p.conn = .allocated p.addr n
  | .create p n | .failMark p n => st p.conn = .listed p.addr n
  | .failClose p n => st p.conn = .doomed p.addr n
  | .failRemove p => st p.conn = .closed p.addr
  | .failFree p => st p.conn = .unlinked p.addr
  | .detach p => (st p.conn).addr? = some p.addr
  | _ => True

/-- The stage a `client_thread` has brought its connection to. -/
def ThreadAt (x : Stage) (k : ConnId) : ThreadPc → Prop
  | .absent => True
  | .start p | .reply p _ _ | .head p | .recv p | .leave p =>
    p.conn = k ∧ ∃ n, x = .listed p.addr n
  | .handshake p fd _ | .respond p fd _ _ | .sending p fd _ _ | .receiving p fd =>
    p.conn = k ∧ x = .listed p.addr fd
  | .close p => p.conn = k ∧ ∃ n, x = .doomed p.addr n
  | .remove p => p.conn = k ∧ x = .closed p.addr
  | .free p => p.conn = k ∧ x = .unlinked p.addr
  | .done => x = .gone true

/-- A broadcast stands somewhere in the list. -/
def BcastAt (clients : List Ptr) : BcastPc → Prop
  | .visit seen rest => clients = seen ++ rest
  | .call seen p rest | .sending seen p rest _ _ | .next seen p rest =>
    clients = seen ++ p :: rest
  | _ => False

/-- `ws_server_stop` took an empty list. -/
def StopAt : StopPc → Prop
  | .walk todo => todo = []
  | .mark _ _ | .close _ _ | .free _ _ => False
  | _ => True

/-- The invariant of a run that respects the owners: the store is that of the stages `st`, and
each party is where the stage of its connection allows it. `held` and `idle` say whose
connection it is while no thread runs for it. -/
structure Owned (st : ConnId → Stage) (s : Server) : Prop where
  store : Consistent st s.store
  accept : AcceptAt st s.accept
  threads : ∀ k, ThreadAt (st k) k (s.thread k)
  held : ∀ k, s.accept.holds = some k → s.thread k = .absent
  idle : ∀ k, s.thread k = .absent →
    s.accept.holds = some k ∨ st k = .absent ∨ ∃ record, st k = .gone record
  bcast : ∀ b, s.bcast = some b → BcastAt s.store.clients b.pc
  stop : StopAt s.stop

/-- `accept_thread` sees the connections it holds, and the record it detaches. -/
theorem AcceptAt.congr {st st' : ConnId → Stage} {pc : AcceptPc} (h : AcceptAt st pc)
    (held : ∀ j, pc.holds = some j → st' j = st j)
    (detach : ∀ q, pc = .detach q → (st' q.conn).addr? = some q.addr) : AcceptAt st' pc := by
  cases pc with
  | head | waiting | done => trivial
  | detach q => exact detach q rfl
  | accepted n k | drop n k => exact (held k rfl).trans h
  | register p n | create p n | failMark p n | failClose p n => exact (held p.conn rfl).trans h
  | failRemove p | failFree p => exact (held p.conn rfl).trans h

namespace Owned

variable {st : ConnId → Stage} {s s' : Server} {k : ConnId} {y : Stage}

/-- A `client_thread` moves, and its connection with it. -/
theorem thread_move {pc : ThreadPc} (h : Owned st s)
    (hpc : s.thread k ≠ .absent)
    (hthread : s'.thread = Function.update s.thread k pc)
    (haccept : s'.accept = s.accept) (hbcast : s'.bcast = s.bcast) (hstop : s'.stop = s.stop)
    (hstore : Consistent (Function.update st k y) s'.store)
    (hclients : s'.store.clients = s.store.clients ∨ s.bcast = none)
    (hdetach : y.addr? = (st k).addr? ∨ ∀ q, s.accept = .detach q → q.conn ≠ k)
    (hat : ThreadAt y k pc) (hpc' : pc ≠ .absent) :
    Owned (Function.update st k y) s' := by
  have hother : ∀ j, s.accept.holds = some j → j ≠ k :=
    fun j hj e => hpc (e ▸ h.held j hj)
  refine ⟨hstore, ?_, ?_, ?_, ?_, ?_, hstop ▸ h.stop⟩
  · rw [haccept]
    refine h.accept.congr (fun j hj => Function.update_of_ne (hother j hj) y st) fun q hq => ?_
    have hacc := h.accept
    rw [hq] at hacc
    rw [Function.update_apply]
    by_cases hqk : q.conn = k
    · rw [if_pos hqk, hdetach.resolve_right fun hall => hall q hq hqk]
      exact hqk ▸ hacc
    · rw [if_neg hqk]
      exact hacc
  · intro j
    rw [hthread, Function.update_apply, Function.update_apply]
    by_cases hj : j = k
    · rw [if_pos hj, if_pos hj, hj]
      exact hat
    · rw [if_neg hj, if_neg hj]
      exact h.threads j
  · intro j hj
    rw [haccept] at hj
    rw [hthread, Function.update_of_ne (hother j hj)]
    exact h.held j hj
  · intro j hj
    rw [hthread, Function.update_apply] at hj
    by_cases hjk : j = k
    · rw [if_pos hjk] at hj
      exact absurd hj hpc'
    · rw [if_neg hjk] at hj
      rw [haccept, Function.update_of_ne hjk]
      exact h.idle j hj
  · intro b hb
    rw [hbcast] at hb
    rcases hclients with e | e
    · rw [e]
      exact h.bcast b hb
    · rw [e] at hb
      cases hb

theorem thread_stay {pc : ThreadPc} (h : Owned st s)
    (hpc : s.thread k ≠ .absent)
    (hthread : s'.thread = Function.update s.thread k pc)
    (haccept : s'.accept = s.accept) (hbcast : s'.bcast = s.bcast) (hstop : s'.stop = s.stop)
    (hstore : s'.store = s.store) (hat : ThreadAt (st k) k pc) (hpc' : pc ≠ .absent) :
    Owned st s' := by
  have hself : Function.update st k (st k) = st := Function.update_eq_self k st
  have hmove := h.thread_move (y := st k) hpc hthread haccept hbcast hstop
    (by rw [hself, hstore]; exact h.store) (Or.inl (by rw [hstore])) (Or.inl rfl) hat hpc'
  rw [hself] at hmove
  exact hmove

/-- The record of a listed connection is there, with its descriptor. -/
theorem read_listed {p : Ptr} {n : Fd} (h : Owned st s) (hx : st p.conn = .listed p.addr n) :
    s.store.touch p = s.store ∧ st p.conn = .listed p.addr (s.store.load p).fd := by
  have haddr : (st p.conn).addr? = some p.addr := hx ▸ rfl
  exact ⟨h.store.touch haddr, (h.store.load_fd (n := n) haddr (hx ▸ rfl)).symm ▸ hx⟩

theorem thread_step {c : Choice} (h : Owned st s)
    (hguard : s.respectsOwner (.thread k c) = true) (hstep : s.threadStep k c = some s') :
    ∃ st', Moves st st' ∧ Owned st' s' := by
  have hat := h.threads k
  have hpc : s.thread k ≠ .absent := by
    intro e
    simp only [Server.threadStep, e, reduceCtorEq] at hstep
  have stays : ∀ {m : Server} {pc : ThreadPc}, m.thread = Function.update s.thread k pc →
      m.accept = s.accept → m.bcast = s.bcast → m.stop = s.stop → m.store = s.store →
      ThreadAt (st k) k pc → pc ≠ .absent → ∃ st', Moves st st' ∧ Owned st' m :=
    fun h1 h2 h3 h4 h5 h6 h7 => ⟨st, Moves.refl st, h.thread_stay hpc h1 h2 h3 h4 h5 h6 h7⟩
  unfold Server.threadStep at hstep
  split at hstep
  next p hp =>
    rw [hp] at hat
    obtain ⟨rfl, n, hx⟩ := hat
    cases hstep
    obtain ⟨htouch, hlisted⟩ := h.read_listed hx
    exact stays rfl rfl rfl rfl htouch ⟨rfl, hlisted⟩ nofun
  next p fd buf hp =>
    rw [hp] at hat
    cases hstep
    exact stays rfl rfl rfl rfl rfl ⟨hat.1, fd, hat.2⟩ nofun
  next p fd buf bytes hp =>
    rw [hp] at hat
    split at hstep
    · cases hstep
    · split at hstep
      · cases hstep
        exact stays rfl rfl rfl rfl rfl hat nofun
      · cases hstep
        exact stays rfl rfl rfl rfl rfl ⟨hat.1, fd, hat.2⟩ nofun
      · split at hstep
        · cases hstep
          exact stays rfl rfl rfl rfl rfl ⟨hat.1, fd, hat.2⟩ nofun
        · cases hstep
          exact stays rfl rfl rfl rfl rfl hat nofun
  next p fd http rest hp =>
    rw [hp] at hat
    cases hstep
    exact stays rfl rfl rfl rfl rfl ⟨hat.1, fd, hat.2⟩ nofun
  next p fd http rest w hp =>
    rw [hp] at hat
    split at hstep
    · cases hstep
    · obtain ⟨m, hwrite, rfl⟩ := Option.map_eq_some_iff.mp hstep
      obtain ⟨j, _, rfl⟩ := Option.map_eq_some_iff.mp hwrite
      split
      · exact stays rfl rfl rfl rfl rfl ⟨hat.1, fd, hat.2⟩ nofun
      · exact stays rfl rfl rfl rfl rfl hat nofun
  next p frame after hp =>
    rw [hp] at hat
    obtain ⟨rfl, n, hx⟩ := hat
    cases hstep
    obtain ⟨htouch, hlisted⟩ := h.read_listed hx
    exact stays rfl rfl rfl rfl htouch ⟨rfl, hlisted⟩ nofun
  next p fd out after hp =>
    rw [hp] at hat
    cases hstep
    cases after with
    | loop | leave => exact stays rfl rfl rfl rfl rfl ⟨hat.1, fd, hat.2⟩ nofun
  next p fd out after w hp =>
    rw [hp] at hat
    split at hstep
    · cases hstep
    · obtain ⟨m, hwrite, rfl⟩ := Option.map_eq_some_iff.mp hstep
      obtain ⟨j, _, rfl⟩ := Option.map_eq_some_iff.mp hwrite
      split
      · exact stays rfl rfl rfl rfl rfl hat nofun
      · cases after with
        | loop | leave => exact stays rfl rfl rfl rfl rfl ⟨hat.1, fd, hat.2⟩ nofun
  next p hp =>
    rw [hp] at hat
    obtain ⟨rfl, n, hx⟩ := hat
    cases hstep
    have htouch := h.store.touch (p := p) (hx ▸ rfl)
    cases s.running && (s.store.load p).alive with
    | true | false => exact stays rfl rfl rfl rfl htouch ⟨rfl, n, hx⟩ nofun
  next p hp =>
    rw [hp] at hat
    obtain ⟨rfl, n, hx⟩ := hat
    cases hstep
    obtain ⟨htouch, hlisted⟩ := h.read_listed hx
    exact stays rfl rfl rfl rfl htouch ⟨rfl, hlisted⟩ nofun
  next p fd hp =>
    rw [hp] at hat
    cases hstep
    exact stays rfl rfl rfl rfl rfl ⟨hat.1, fd, hat.2⟩ nofun
  next p fd opcode payload db hp =>
    rw [hp] at hat
    cases hstep
    cases clientReply db opcode payload with
    | send _ | sendAndLeave _ | ignore =>
      exact stays rfl rfl rfl rfl rfl ⟨hat.1, fd, hat.2⟩ nofun
  next p hp =>
    rw [hp] at hat
    obtain ⟨rfl, n, hx⟩ := hat
    cases hstep
    exact ⟨_, Moves.update (hx ▸ .mark p.addr n), h.thread_move hpc rfl rfl rfl rfl
      (h.store.markDead hx) (Or.inl (Store.markDead_clients _ p)) (Or.inl (hx ▸ rfl))
      ⟨rfl, n, rfl⟩ nofun⟩
  next p hp =>
    rw [hp] at hat
    obtain ⟨rfl, n, hx⟩ := hat
    cases hstep
    exact ⟨_, Moves.update (hx ▸ .close p.addr n), h.thread_move hpc rfl rfl rfl rfl
      (h.store.closeOf hx) (Or.inl (Store.closeOf_clients _ p)) (Or.inl (hx ▸ rfl))
      ⟨rfl, rfl⟩ nofun⟩
  next p hp =>
    rw [hp] at hat
    obtain ⟨rfl, hx⟩ := hat
    split at hstep
    next hnone =>
      cases hstep
      exact ⟨_, Moves.update (hx ▸ .remove p.addr), h.thread_move hpc rfl rfl rfl rfl
        (h.store.clientRemove hx) (Or.inr hnone) (Or.inl (hx ▸ rfl)) ⟨rfl, rfl⟩ nofun⟩
    next => cases hstep
  next p hp =>
    rw [hp] at hat
    obtain ⟨rfl, hx⟩ := hat
    cases hstep
    refine ⟨_, Moves.update (hx ▸ .free p.addr), h.thread_move hpc rfl rfl rfl rfl
      (h.store.free hx) (Or.inl (Store.free_clients _ p)) (Or.inr fun q hq => ?_) rfl nofun⟩
    simpa only [Server.respectsOwner, hp, hq, decide_eq_true_eq] using hguard
  next => cases hstep

/-- `accept_thread` moves, and with it the connection it holds or accepts. -/
theorem accept_move {pc : AcceptPc} (h : Owned st s)
    (hk : s.accept.holds = some k ∨ s.accept.holds = none ∧ st k = .absent)
    (hthread : s'.thread = s.thread) (haccept : s'.accept = pc) (hbcast : s'.bcast = s.bcast)
    (hstop : s'.stop = s.stop) (hstore : Consistent (Function.update st k y) s'.store)
    (hclients : s'.store.clients = s.store.clients ∨ s.bcast = none)
    (hat : AcceptAt (Function.update st k y) pc)
    (hholds : pc.holds = some k ∨ pc.holds = none ∧ ∃ record, y = .gone record) :
    Owned (Function.update st k y) s' := by
  have habsent : s.thread k = .absent := by
    rcases hk with hk | ⟨_, hk⟩
    · exact h.held k hk
    · have hat := h.threads k
      rw [hk] at hat
      cases hp : s.thread k with
      | absent => rfl
      | _ =>
        rw [hp] at hat
        simp only [ThreadAt, reduceCtorEq, and_false, exists_false] at hat
  refine ⟨hstore, haccept ▸ hat, fun j => ?_, fun j hj => ?_, fun j hj => ?_, fun b hb => ?_,
    hstop ▸ h.stop⟩
  · rw [hthread]
    by_cases hj : j = k
    · rw [hj, habsent]
      trivial
    · rw [Function.update_of_ne hj]
      exact h.threads j
  · rw [haccept] at hj
    rw [hthread]
    rcases hholds with hk' | ⟨hk', _⟩
    · rw [hk'] at hj
      exact Option.some.inj hj ▸ habsent
    · rw [hk'] at hj
      cases hj
  · rw [hthread] at hj
    rw [haccept, Function.update_apply]
    by_cases hjk : j = k
    · rw [if_pos hjk, hjk]
      exact hholds.imp_right fun hgone => Or.inr hgone.2
    · rw [if_neg hjk]
      refine Or.inr ((h.idle j hj).resolve_left fun hheld => ?_)
      rcases hk with hk | ⟨hk, _⟩
      · rw [hk] at hheld
        exact hjk (Option.some.inj hheld).symm
      · rw [hk] at hheld
        cases hheld
  · rw [hbcast] at hb
    rcases hclients with e | e
    · rw [e]
      exact h.bcast b hb
    · rw [e] at hb
      cases hb

theorem accept_stay {pc : AcceptPc} (h : Owned st s) (hthread : s'.thread = s.thread)
    (haccept : s'.accept = pc) (hbcast : s'.bcast = s.bcast) (hstop : s'.stop = s.stop)
    (hstore : s'.store = s.store) (hat : AcceptAt st pc) (hholds : pc.holds = s.accept.holds) :
    Owned st s' := by
  refine ⟨hstore ▸ h.store, haccept ▸ hat, hthread ▸ h.threads, ?_, ?_, ?_, hstop ▸ h.stop⟩
  · rw [haccept, hholds, hthread]
    exact h.held
  · rw [haccept, hholds, hthread]
    exact h.idle
  · rw [hbcast, hstore]
    exact h.bcast

/-- `pthread_create`: the connection goes from `accept_thread` to its own thread. -/
theorem accept_create {p : Ptr} {n : Fd} (h : Owned st s) (hp : s.accept = .create p n)
    (hthread : s'.thread = Function.update s.thread p.conn (.start p))
    (haccept : s'.accept = .detach p) (hbcast : s'.bcast = s.bcast) (hstop : s'.stop = s.stop)
    (hstore : s'.store = s.store) : Owned st s' := by
  have hx : st p.conn = .listed p.addr n := by
    have hacc := h.accept
    rw [hp] at hacc
    exact hacc
  refine ⟨hstore ▸ h.store, haccept ▸ (show (st p.conn).addr? = _ from hx ▸ rfl), fun j => ?_,
    fun j hj => ?_, fun j hj => ?_, ?_, hstop ▸ h.stop⟩
  · rw [hthread, Function.update_apply]
    by_cases hj : j = p.conn
    · rw [if_pos hj, hj]
      exact ⟨rfl, n, hx⟩
    · rw [if_neg hj]
      exact h.threads j
  · rw [haccept] at hj
    cases hj
  · rw [hthread, Function.update_apply] at hj
    by_cases hjp : j = p.conn
    · rw [if_pos hjp] at hj
      cases hj
    · rw [if_neg hjp] at hj
      refine Or.inr ((h.idle j hj).resolve_left fun hheld => ?_)
      rw [hp] at hheld
      exact hjp (Option.some.inj hheld).symm
  · rw [hbcast, hstore]
    exact h.bcast

theorem accept_step {c : Choice} (h : Owned st s) (hstep : s.acceptStep c = some s') :
    ∃ st', Moves st st' ∧ Owned st' s' := by
  have hat := h.accept
  unfold Server.acceptStep at hstep
  split at hstep
  next hp =>
    cases hstep
    refine ⟨st, Moves.refl st, h.accept_stay rfl rfl rfl rfl rfl ?_ ?_⟩
    · cases s.running <;> trivial
    · rw [hp]
      cases s.running <;> rfl
  next hp =>
    cases hstep
    refine ⟨st, Moves.refl st, h.accept_stay rfl rfl rfl rfl rfl ?_ ?_⟩
    · cases s.running <;> trivial
    · rw [hp]
      cases s.running <;> rfl
  next n hp =>
    split at hstep
    next hfree =>
      cases hstep
      have habs : st s.store.nextConn = .absent := (h.store.absent _).mpr (Nat.le_refl _)
      exact ⟨_, Moves.update (habs ▸ .accept n), h.accept_move (Or.inr ⟨hp ▸ rfl, habs⟩)
        rfl rfl rfl rfl (h.store.accepted hfree) (Or.inl rfl)
        (Function.update_self _ _ _) (Or.inl rfl)⟩
    next => cases hstep
  next n k hp =>
    rw [hp] at hat
    cases hstep
    exact ⟨st, Moves.refl st, h.accept_stay rfl rfl rfl rfl rfl hat (hp ▸ rfl)⟩
  next n k hp =>
    rw [hp] at hat
    cases hstep
    have hx : st k = .opened n := hat
    exact ⟨_, Moves.update (hx ▸ .drop n), h.accept_move (Or.inl (hp ▸ rfl)) rfl rfl rfl rfl
      (h.store.close (hx ▸ rfl) (hx ▸ .drop n) rfl) (Or.inl rfl) trivial
      (Or.inr ⟨rfl, false, rfl⟩)⟩
  next n k r hp =>
    rw [hp] at hat
    have hx : st k = .opened n := hat
    split at hstep
    next => cases hstep
    next hcell =>
      cases hstep
      exact ⟨_, Moves.update (hx ▸ .calloc n r), h.accept_move (Or.inl (hp ▸ rfl))
        rfl rfl rfl rfl (h.store.alloc hx hcell) (Or.inl rfl)
        (Function.update_self _ _ _) (Or.inl rfl)⟩
  next p n hp =>
    rw [hp] at hat
    have hx : st p.conn = .allocated p.addr n := hat
    split at hstep
    next hnone =>
      cases hstep
      exact ⟨_, Moves.update (hx ▸ .register p.addr n), h.accept_move (Or.inl (hp ▸ rfl))
        rfl rfl rfl rfl (h.store.push hx) (Or.inr hnone)
        (Function.update_self _ _ _) (Or.inl rfl)⟩
    next => cases hstep
  next p n hp =>
    rw [hp] at hat
    have hx : st p.conn = .listed p.addr n := hat
    cases hstep
    exact ⟨st, Moves.refl st, h.accept_create hp rfl rfl rfl rfl
      (h.store.touch (p := p) (hx ▸ rfl))⟩
  next p n hp =>
    rw [hp] at hat
    have hx : st p.conn = .listed p.addr n := hat
    cases hstep
    exact ⟨st, Moves.refl st, h.accept_stay rfl rfl rfl rfl
      (h.store.touch (p := p) (hx ▸ rfl)) hx (hp ▸ rfl)⟩
  next p hp =>
    rw [hp] at hat
    cases hstep
    exact ⟨st, Moves.refl st, h.accept_stay rfl rfl rfl rfl (h.store.touch hat) trivial
      (hp ▸ rfl)⟩
  next p n hp =>
    rw [hp] at hat
    have hx : st p.conn = .listed p.addr n := hat
    cases hstep
    exact ⟨_, Moves.update (hx ▸ .mark p.addr n), h.accept_move (Or.inl (hp ▸ rfl))
      rfl rfl rfl rfl (h.store.markDead hx) (Or.inl (Store.markDead_clients _ p))
      (Function.update_self _ _ _) (Or.inl rfl)⟩
  next p n hp =>
    rw [hp] at hat
    have hx : st p.conn = .doomed p.addr n := hat
    cases hstep
    exact ⟨_, Moves.update (hx ▸ .close p.addr n), h.accept_move (Or.inl (hp ▸ rfl))
      rfl rfl rfl rfl (h.store.close (hx ▸ rfl) (hx ▸ .close p.addr n) rfl) (Or.inl rfl)
      (Function.update_self _ _ _) (Or.inl rfl)⟩
  next p hp =>
    rw [hp] at hat
    have hx : st p.conn = .closed p.addr := hat
    split at hstep
    next hnone =>
      cases hstep
      exact ⟨_, Moves.update (hx ▸ .remove p.addr), h.accept_move (Or.inl (hp ▸ rfl))
        rfl rfl rfl rfl (h.store.clientRemove hx) (Or.inr hnone)
        (Function.update_self _ _ _) (Or.inl rfl)⟩
    next => cases hstep
  next p hp =>
    rw [hp] at hat
    have hx : st p.conn = .unlinked p.addr := hat
    cases hstep
    exact ⟨_, Moves.update (hx ▸ .free p.addr), h.accept_move (Or.inl (hp ▸ rfl))
      rfl rfl rfl rfl (h.store.free hx) (Or.inl (Store.free_clients _ p)) trivial
      (Or.inr ⟨rfl, true, rfl⟩)⟩
  next => cases hstep

/-- A step that neither the threads nor the store take part in. -/
theorem other_stay (h : Owned st s) (hthread : s'.thread = s.thread)
    (haccept : s'.accept = s.accept) (hstore : s'.store = s.store)
    (hbcast : ∀ b, s'.bcast = some b → BcastAt s.store.clients b.pc) (hstop : StopAt s'.stop) :
    Owned st s' := by
  refine ⟨hstore ▸ h.store, haccept ▸ h.accept, hthread ▸ h.threads, ?_, ?_, ?_, hstop⟩
  · rw [haccept, hthread]
    exact h.held
  · rw [haccept, hthread]
    exact h.idle
  · rw [hstore]
    exact hbcast

theorem bcast_step {c : Choice} (h : Owned st s)
    (hguard : s.respectsOwner (.bcast c) = true) (hstep : s.bcastStep c = some s') :
    Owned st s' := by
  unfold Server.bcastStep at hstep
  split at hstep
  next => cases hstep
  next b hb =>
    have hat := h.bcast b hb
    have stays : ∀ {m : Server} {pc : BcastPc}, m.bcast = some { b with pc := pc } →
        BcastAt s.store.clients pc → m.thread = s.thread → m.accept = s.accept →
        m.stop = s.stop → m.store = s.store → Owned st m :=
      fun hb' hat' h1 h2 h3 h4 => h.other_stay h1 h2 h4
        (fun b' e => by rw [hb'] at e; cases e; exact hat') (h3 ▸ h.stop)
    obtain ⟨msg, pc⟩ := b
    dsimp only at hstep hat
    split at hstep
    next =>
      cases hstep
      exact h.other_stay rfl rfl rfl (fun b' e => by cases e) h.stop
    next seen p rest =>
      have hmem : p ∈ s.store.clients :=
        hat ▸ List.mem_append_right seen List.mem_cons_self
      have halive : (s.store.load p).alive = true := by
        simpa only [Server.respectsOwner, hb] using hguard
      cases hstep
      exact stays rfl (by rw [if_pos halive]; exact hat) rfl rfl rfl
        (h.store.touch (h.store.addr_of_mem hmem))
    next seen p rest =>
      have hmem : p ∈ s.store.clients :=
        hat ▸ List.mem_append_right seen List.mem_cons_self
      cases hstep
      exact stays rfl hat rfl rfl rfl (h.store.touch (h.store.addr_of_mem hmem))
    next =>
      simp only [Server.respectsOwner, hb, Bool.false_eq_true] at hguard
    next seen p rest fd out w =>
      split at hstep
      · cases hstep
      · obtain ⟨m, hwrite, rfl⟩ := Option.map_eq_some_iff.mp hstep
        obtain ⟨j, _, rfl⟩ := Option.map_eq_some_iff.mp hwrite
        split
        · exact stays rfl hat rfl rfl rfl rfl
        · exact stays rfl hat rfl rfl rfl rfl
    next seen p rest =>
      have hmem : p ∈ s.store.clients :=
        hat ▸ List.mem_append_right seen List.mem_cons_self
      cases hstep
      refine stays rfl ?_ rfl rfl rfl (h.store.touch (h.store.addr_of_mem hmem))
      rw [hat]
      exact (List.append_assoc seen [p] rest).symm
    next => exact hat.elim
    next => exact hat.elim
    next => exact hat.elim
    next => exact hat.elim
    next => cases hstep

theorem stop_step {c : Choice} (h : Owned st s)
    (hguard : s.respectsOwner (.stop c) = true) (hstep : s.stopStep c = some s') :
    Owned st s' := by
  have hat := h.stop
  unfold Server.stopStep at hstep
  split at hstep
  next =>
    cases hstep
    exact h.other_stay rfl rfl rfl h.bcast trivial
  next =>
    split at hstep
    · cases hstep
      exact h.other_stay rfl rfl rfl h.bcast trivial
    · cases hstep
  next hp =>
    have hempty : s.store.clients = [] := by
      simpa only [Server.respectsOwner, hp, ne_eq, not_true_eq_false, decide_false,
        Bool.false_or, List.isEmpty_iff] using hguard
    split at hstep
    · cases hstep
      refine h.other_stay rfl rfl ?_ h.bcast hempty
      rw [← hempty]
    · cases hstep
  next =>
    cases hstep
    exact h.other_stay rfl rfl rfl h.bcast trivial
  next p todo hp =>
    rw [hp] at hat
    cases hat
  next p todo hp =>
    rw [hp] at hat
    exact hat.elim
  next p todo hp =>
    rw [hp] at hat
    exact hat.elim
  next p todo hp =>
    rw [hp] at hat
    exact hat.elim
  next => cases hstep

theorem init : Owned (fun _ => .absent) Server.init where
  store :=
    { fds := fun _ _ => ⟨nofun, nofun⟩
      heap := fun _ _ => ⟨nofun, nofun⟩
      fields := nofun
      clients := ⟨List.nodup_nil, fun _ => ⟨nofun, nofun⟩⟩
      closes := rfl
      allocs := rfl
      releases := rfl
      absent := fun k => ⟨fun _ => Nat.zero_le k, fun _ => rfl⟩
      clean := rfl }
  accept := trivial
  threads := fun _ => trivial
  held := nofun
  idle := fun _ _ => Or.inr (Or.inl rfl)
  bcast := nofun
  stop := trivial

/-- Under the condition a step of the machine is a step of one connection's life,
or of none. -/
theorem step {a : Action} (h : Owned st s) (hguard : s.respectsOwner a = true)
    (hstep : s.step a = some s') : ∃ st', Moves st st' ∧ Owned st' s' := by
  cases a with
  | accept c => exact h.accept_step hstep
  | thread k c => exact h.thread_step hguard hstep
  | bcast c => exact ⟨st, Moves.refl st, h.bcast_step hguard hstep⟩
  | stop c => exact ⟨st, Moves.refl st, h.stop_step hguard hstep⟩
  | bcastBegin msg =>
    obtain ⟨-, rfl⟩ := Server.bcastBegin_eq_some hstep
    exact ⟨st, Moves.refl st, h.other_stay rfl rfl rfl (fun b hb => by cases hb; rfl) h.stop⟩

theorem releasedOnce (h : Owned st s) : s.ClientsReleasedOnce := by
  refine ⟨fun k => ?_, fun k => ?_, h.store.clean, fun hended k hk => ?_⟩
  · rw [h.store.closes]
    exact (st k).closes_le
  · rw [h.store.releases]
    exact (st k).releases_le
  · obtain ⟨haccept, hthreads, _, _⟩ := hended
    have hgone : ∃ record, st k = .gone record := by
      have hat := h.threads k
      rcases hthreads k with hp | hp
      · rcases h.idle k hp with hheld | habs | hgone
        · rw [haccept] at hheld
          cases hheld
        · exact absurd hk (Nat.not_lt.mpr ((h.store.absent k).mp habs))
        · exact hgone
      · rw [hp] at hat
        exact ⟨true, hat⟩
    obtain ⟨record, hx⟩ := hgone
    rw [h.store.closes, h.store.releases, h.store.allocs]
    show (st k).closes = 1 ∧ (st k).releases = (st k).allocs
    rw [hx]
    cases record <;> exact ⟨rfl, rfl⟩

end Owned

/-! ## Runs -/

/-- A run that leaves records to their owners keeps the invariant. -/
theorem owned_of_run {as : List Action} {s : Server}
    (hg : Guarded Server.step (fun s a => s.respectsOwner a = true) Server.init as)
    (h : exec Server.step Server.init as = some s) : ∃ st, Owned st s :=
  exec_invariant (I := fun s => ∃ st, Owned st s)
    (fun _ _ _ ⟨_, hI⟩ hguard hstep => (hI.step hguard hstep).imp fun _ hs => hs.2)
    ⟨_, Owned.init⟩ hg h

/-- **Every client is closed and released exactly once.** The condition is on each step and the
state before it (`respectsOwner`): a broadcast meets only clients that are alive and whose
`send` succeeds, so it removes none, `ws_server_stop` takes the list only when it is empty, and
a thread frees its record only when `accept_thread` has detached it. Besides that the run is
any: connections come and go, descriptors and addresses are handed out again, calls fail. In the
state it reaches no connection has been closed or released twice, no step has touched what was
released, and once all threads have ended every connection has been closed once and its record
released once, if it had one. -/
theorem clients_released_once_of_guarded (as : List Action) (s : Server)
    (hg : Guarded Server.step (fun s a => s.respectsOwner a = true) Server.init as)
    (h : exec Server.step Server.init as = some s) : s.ClientsReleasedOnce := by
  obtain ⟨_, hI⟩ := owned_of_run hg h
  exact hI.releasedOnce

/-- `accept` answers the descriptor `n`, and the record is allocated at `r`. -/
def connects (n : Fd) (r : Addr) : List Action :=
  [.accept .go, .accept (.opened n), .accept (.allocated r), .accept .go, .accept .go, .accept .go]

/-- The handshake of a connection fails, and its thread leaves. -/
def leaves (k : ConnId) : List Action :=
  [.thread k .failed, .thread k .go, .thread k .go, .thread k .go, .thread k .go]

/-- Two clients to whom a broadcast is sent in full, a third one that gets the descriptor and
the record of the first when that is gone, and an orderly stop after all have left. -/
def twoClients : List Action :=
  connects 5 0 ++ connects 6 1 ++ [.thread 0 .go, .thread 1 .go, .bcastBegin (ascii "\x7b\x7d")] ++
    (List.replicate 2 [.bcast .go, .bcast .go, .bcast (.sent 2), .bcast (.sent 2),
      .bcast .go]).flatten ++ [.bcast .go] ++ leaves 0 ++ connects 5 0 ++ [.thread 2 .go] ++
    leaves 1 ++ leaves 2 ++ [.stop .go, .accept .go, .stop .go, .stop .go, .stop .go]

theorem two_clients_released_once :
    ∃ s, exec Server.step Server.init twoClients = some s ∧ s.ClientsReleasedOnce ∧
      (s.wire 0).length = 2 ∧ (s.wire 1).length = 2 ∧
      s.store.closes 0 = 1 ∧ s.store.closes 1 = 1 ∧ s.store.closes 2 = 1 ∧
      s.stop = .returned := by
  have hrun : (exec Server.step Server.init twoClients).map
      (fun s => ((s.wire 0).length, (s.wire 1).length, s.store.closes 0, s.store.closes 1,
        s.store.closes 2, s.stop)) = some (2, 2, 1, 1, 1, .returned) := by decide
  obtain ⟨s, hs, hend⟩ := Option.map_eq_some_iff.mp hrun
  simp only [Prod.mk.injEq] at hend
  exact ⟨s, hs, clients_released_once_of_guarded twoClients s (by decide) hs, hend⟩

/-- A broadcast to a client that is still in its handshake fails and removes it. -/
def removedByBroadcast : List Action :=
  [.accept .go, .accept (.opened 5), .accept (.allocated 0), .accept .go, .accept .go,
   .accept .go, .thread 0 .go, .bcastBegin (ascii "\x7b\x7d"), .bcast .go, .bcast .go,
   .bcast .failed, .bcast .go, .bcast .go, .bcast .go, .bcast .go, .bcast .go,
   .thread 0 .failed, .thread 0 .go, .thread 0 .go, .thread 0 .go, .thread 0 .go]

/-- The thread of a client that a broadcast has removed closes and frees it again. -/
theorem removed_client_released_twice :
    ∃ s, exec Server.step Server.init removedByBroadcast = some s ∧
      ¬ s.ClientsReleasedOnce := by
  have hrun : (exec Server.step Server.init removedByBroadcast).map
      (fun s => s.store.closes 0) = some 2 := by decide
  obtain ⟨s, hs, hcloses⟩ := Option.map_eq_some_iff.mp hrun
  refine ⟨s, hs, fun h => ?_⟩
  have := h.closed 0
  omega

end TelemetryTestbed.WebSocket
