import TelemetryTestbed.Gateway.Pipeline

/-!
# The flow of samples

Every sample the pipeline still knows of stands in one of a few places: committed,
in the open transaction, in the hands of the writer, in the queue, or with
`on_message`. `Flow` reads those places one after the other and finds a
subsequence of the messages received; each step moves samples from one place to
the next or drops some. Order and the absence of duplicates follow for every run
(`committed_sublist_received`).

The bookkeeping of the machine is used here and only here: that the numbers of the messages
ascend is what makes the received messages different from each other. A step that drops
samples, because a push has no memory or the batch is rolled back, leaves a subsequence.
-/

namespace TelemetryTestbed.Gateway

open TelemetryTestbed.Lib TelemetryTestbed.Telemetry
open scoped List

/-- The sample `on_message` has built and not yet passed on. -/
def MessagePc.holds : MessagePc → List Sample
  | .alloc s | .link _ s => [s]
  | _ => []

@[simp] theorem MessagePc.holds_idle : MessagePc.idle.holds = [] := rfl

/-- The samples of the batch that are not yet inserted. -/
def WriterPc.toInsert : WriterPc → List Sample
  | .begin _ batch => batch
  | .insert _ _ rest _ _ => rest
  | _ => []

/-- The samples of the batch that are not yet broadcast. -/
def WriterPc.toBroadcast : WriterPc → List Sample
  | .begin _ batch | .endTx _ batch _ _ | .stats _ batch _ => batch
  | .insert _ inserted rest _ _ => inserted ++ rest
  | .broadcast _ rest => rest
  | _ => []

@[simp] theorem WriterPc.toInsert_signal (pc : WriterPc) : pc.signal.toInsert = pc.toInsert := by
  cases pc <;> rfl

@[simp] theorem WriterPc.toBroadcast_signal (pc : WriterPc) :
    pc.signal.toBroadcast = pc.toBroadcast := by
  cases pc <;> rfl

/-- The rows of the open transaction. -/
def pending (conn : Conn Sample) : List Sample := conn.tx.getD []

/-- The invariant of the pipeline. Whatever is stored, shown or linked is a sublist of what was
received, each with the samples that are still on their way behind it, so nothing is duplicated,
reordered or made up. -/
structure Flow (g : TelemetryGateway) (q : List Sample) : Prop where
  rep : g.queue.Rep q
  stored : g.writer.conn.committed ++ (pending g.writer.conn ++
    (g.writerPc.toInsert ++ (q ++ g.message.holds))) <+ g.received
  shown : g.writer.broadcasts.map BroadcastCall.sample ++
    (g.writerPc.toBroadcast ++ (q ++ g.message.holds)) <+ g.received
  linked : g.enqueued ++ g.message.holds <+ g.received
  serials : g.received.map Sample.serial = List.range g.received.length
  serial : ∀ k st now payload, g.message = .copyRaw k st now payload → k = g.received.length
  fresh : ∀ r s, g.message = .link r s → g.queue.nodes r = none

/-- What a step of `telemetry_gateway_stop` is. -/
theorem stopStep_eq_some {g g' : TelemetryGateway} (h : g.stopStep = some g') :
    (g.stop = .idle ∧ g' = { g with running := false, stop := .wake }) ∨
    (g.stop = .wake ∧ g' = { g with writerPc := g.writerPc.signal, stop := .joinWriter }) ∨
    (g.stop = .joinWriter ∧ g.writerPc = .done ∧ g' = { g with stop := .closeMqtt }) ∨
    (g.stop = .closeMqtt ∧ g.message = .idle ∧ g' = { g with stop := .sweep }) ∨
    (g.stop = .sweep ∧
      g' = { g with discarded := g.queue.contents, queue := .empty, stop := .returned }) := by
  unfold TelemetryGateway.stopStep at h
  split at h
  next hs => exact Or.inl ⟨hs, (Option.some.inj h).symm⟩
  next hs => exact Or.inr (Or.inl ⟨hs, (Option.some.inj h).symm⟩)
  next hs =>
    split at h
    next hpc => exact Or.inr (Or.inr (Or.inl ⟨hs, hpc, (Option.some.inj h).symm⟩))
    next => cases h
  next hs =>
    split at h
    next hm => exact Or.inr (Or.inr (Or.inr (Or.inl ⟨hs, hm, (Option.some.inj h).symm⟩)))
    next => cases h
  next hs => exact Or.inr (Or.inr (Or.inr (Or.inr ⟨hs, (Option.some.inj h).symm⟩)))
  next => cases h

namespace Flow

variable {g g' : TelemetryGateway} {q : List Sample}

/-- `on_message` moves without a new sample. -/
theorem message_stay (h : Flow g q) (hholds : g'.message.holds <+ g.message.holds)
    (hserial : ∀ k st now payload, g'.message = .copyRaw k st now payload →
      k = g.received.length)
    (hfresh : ∀ r s, g'.message = .link r s → g.queue.nodes r = none)
    (hqueue : g'.queue = g.queue) (hwriter : g'.writer = g.writer)
    (hpc : g'.writerPc = g.writerPc) (hreceived : g'.received = g.received)
    (henqueued : g'.enqueued = g.enqueued) : Flow g' q where
  rep := hqueue ▸ h.rep
  stored := by
    rw [hwriter, hpc, hreceived]
    exact .trans (.append_left (.append_left (.append_left (.append_left hholds _) _) _) _)
      h.stored
  shown := by
    rw [hwriter, hpc, hreceived]
    exact .trans (.append_left (.append_left (.append_left hholds _) _) _) h.shown
  linked := by
    rw [henqueued, hreceived]
    exact .trans (.append_left hholds _) h.linked
  serials := hreceived ▸ h.serials
  serial := hreceived ▸ hserial
  fresh := hqueue ▸ hfresh

/-- A message has been decoded. -/
theorem message_receive {s : Sample} (h : Flow g q) (hnone : g.message.holds = [])
    (hs : s.serial = g.received.length) (hqueue : g'.queue = g.queue)
    (hwriter : g'.writer = g.writer) (hpc : g'.writerPc = g.writerPc)
    (hmessage : g'.message = .alloc s) (hreceived : g'.received = g.received ++ [s])
    (henqueued : g'.enqueued = g.enqueued) : Flow g' q where
  rep := hqueue ▸ h.rep
  stored := by
    have hsub := h.stored.append (List.Sublist.refl [s])
    simp only [hnone, List.append_nil, List.append_assoc] at hsub
    rw [hwriter, hpc, hmessage, hreceived]
    exact hsub
  shown := by
    have hsub := h.shown.append (List.Sublist.refl [s])
    simp only [hnone, List.append_nil, List.append_assoc] at hsub
    rw [hwriter, hpc, hmessage, hreceived]
    exact hsub
  linked := by
    have hsub := h.linked.append (List.Sublist.refl [s])
    simp only [hnone, List.append_nil] at hsub
    rw [henqueued, hmessage, hreceived]
    exact hsub
  serials := by
    have hlen : (g.received ++ [s]).length = g.received.length + 1 := List.length_append
    rw [hreceived, hlen, List.range_succ, List.map_append, h.serials, ← hs]
    exact List.map_singleton ▸ rfl
  serial := fun _ _ _ _ e => by cases hmessage.symm.trans e
  fresh := fun _ _ e => by cases hmessage.symm.trans e

/-- `queue_push` links a sample in. -/
theorem message_link {r : Addr} {s : Sample} (h : Flow g q) (hmsg : g.message = .link r s)
    (hqueue : g'.queue = g.queue.push r s) (hwriter : g'.writer = g.writer)
    (hpc : g'.writerPc = g.writerPc.signal) (hmessage : g'.message = .idle)
    (hreceived : g'.received = g.received) (henqueued : g'.enqueued = g.enqueued ++ [s]) :
    Flow g' (q ++ [s]) where
  rep := hqueue ▸ h.rep.push (h.fresh r s hmsg)
  stored := by
    have hsub := h.stored
    rw [hmsg] at hsub
    rw [hwriter, hpc, hmessage, hreceived, WriterPc.toInsert_signal, MessagePc.holds_idle,
      List.append_nil]
    exact hsub
  shown := by
    have hsub := h.shown
    rw [hmsg] at hsub
    rw [hwriter, hpc, hmessage, hreceived, WriterPc.toBroadcast_signal, MessagePc.holds_idle,
      List.append_nil]
    exact hsub
  linked := by
    have hsub := h.linked
    rw [hmsg] at hsub
    rw [henqueued, hmessage, hreceived, MessagePc.holds_idle, List.append_nil]
    exact hsub
  serials := hreceived ▸ h.serials
  serial := fun _ _ _ _ e => by cases hmessage.symm.trans e
  fresh := fun _ _ e => by cases hmessage.symm.trans e

theorem message_step {c : MessageChoice} (h : Flow g q) (hstep : g.messageStep c = some g') :
    ∃ q', Flow g' q' := by
  unfold TelemetryGateway.messageStep at hstep
  split at hstep
  next topic payload hm =>
    split at hstep
    · cases hstep
    · cases hstep
      refine ⟨q, h.message_stay ?_ ?_ ?_ rfl rfl rfl rfl rfl⟩
      · dsimp only
        split <;> exact List.nil_sublist _
      · intro _ _ _ _ e
        dsimp only at e
        split at e <;> cases e
      · intro _ _ e
        dsimp only at e
        split at e <;> cases e
  next payload hm =>
    cases hstep
    exact ⟨q, h.message_stay (List.nil_sublist _) (fun _ _ _ _ e => by cases e)
      (fun _ _ e => by cases e) rfl rfl rfl rfl rfl⟩
  next payload hm =>
    cases hstep
    exact ⟨q, h.message_stay (List.nil_sublist _) (fun _ _ _ _ e => by cases e)
      (fun _ _ e => by cases e) rfl rfl rfl rfl rfl⟩
  next payload st now hm =>
    cases hstep
    exact ⟨q, h.message_stay (List.nil_sublist _) (fun _ _ _ _ e => by cases e; rfl)
      (fun _ _ e => by cases e) rfl rfl rfl rfl rfl⟩
  next serial st now payload hm =>
    cases hstep
    exact ⟨q, h.message_receive (hm ▸ rfl) (h.serial _ _ _ _ hm) rfl rfl rfl rfl rfl rfl⟩
  next serial st now payload hm =>
    cases hstep
    exact ⟨q, h.message_receive (hm ▸ rfl) (h.serial _ _ _ _ hm) rfl rfl rfl rfl rfl rfl⟩
  next s hm =>
    cases hstep
    exact ⟨q, h.message_stay (List.nil_sublist _) (fun _ _ _ _ e => by cases e)
      (fun _ _ e => by cases e) rfl rfl rfl rfl rfl⟩
  next s r hm =>
    split at hstep
    next hfree =>
      cases hstep
      refine ⟨q, h.message_stay ?_ (fun _ _ _ _ e => by cases e)
        (fun _ _ e => by cases e; exact hfree)
        rfl rfl rfl rfl rfl⟩
      rw [hm]
      exact List.Sublist.refl _
    next => cases hstep
  next r s hm =>
    cases hstep
    exact ⟨q ++ [s], h.message_link hm rfl rfl rfl rfl rfl rfl⟩
  next => cases hstep

/-- The writer moves: it passes samples on, or drops some. -/
theorem writer_move {q' : List Sample} (h : Flow g q) (hrep : g'.queue.Rep q')
    (hnodes : ∀ r, g.queue.nodes r = none → g'.queue.nodes r = none)
    (hmessage : g'.message = g.message) (hreceived : g'.received = g.received)
    (henqueued : g'.enqueued = g.enqueued)
    (hstored : g'.writer.conn.committed ++ (pending g'.writer.conn ++
        (g'.writerPc.toInsert ++ q')) <+
      g.writer.conn.committed ++ (pending g.writer.conn ++ (g.writerPc.toInsert ++ q)))
    (hshown : g'.writer.broadcasts.map BroadcastCall.sample ++
        (g'.writerPc.toBroadcast ++ q') <+
      g.writer.broadcasts.map BroadcastCall.sample ++ (g.writerPc.toBroadcast ++ q)) :
    Flow g' q' where
  rep := hrep
  stored := by
    have hsub := hstored.append (List.Sublist.refl g.message.holds)
    simp only [List.append_assoc] at hsub
    rw [hmessage, hreceived]
    exact hsub.trans h.stored
  shown := by
    have hsub := hshown.append (List.Sublist.refl g.message.holds)
    simp only [List.append_assoc] at hsub
    rw [hmessage, hreceived]
    exact hsub.trans h.shown
  linked := by
    rw [henqueued, hmessage, hreceived]
    exact h.linked
  serials := hreceived ▸ h.serials
  serial := by
    rw [hmessage, hreceived]
    exact h.serial
  fresh := fun r s hr => hnodes r (h.fresh r s (hmessage ▸ hr))

/-- The writer moves and has the same samples in hand. -/
theorem writer_stay (h : Flow g q) (hqueue : g'.queue = g.queue)
    (hmessage : g'.message = g.message) (hreceived : g'.received = g.received)
    (henqueued : g'.enqueued = g.enqueued) (hconn : g'.writer.conn = g.writer.conn)
    (hbroadcasts : g'.writer.broadcasts = g.writer.broadcasts)
    (hinsert : g'.writerPc.toInsert <+ g.writerPc.toInsert)
    (hbroadcast : g'.writerPc.toBroadcast <+ g.writerPc.toBroadcast) : Flow g' q := by
  refine h.writer_move (hqueue ▸ h.rep) (fun r hr => hqueue ▸ hr) hmessage hreceived henqueued
    ?_ ?_
  · rw [hconn]
    exact .append_left (.append_left (.append_right hinsert q) _) _
  · rw [hbroadcasts]
    exact .append_left (.append_right hbroadcast q) _

/-- An `INSERT` puts its row behind the pending ones, or drops it. -/
theorem insertRow_sublist (conn : Conn Sample) (ok : Bool) (s : Sample) (answer : InsertAnswer) :
    (insertRow (conn, ok) s answer).1.committed ++ pending (insertRow (conn, ok) s answer).1 <+
      conn.committed ++ (pending conn ++ [s]) := by
  obtain ⟨committed, tx⟩ := conn
  unfold insertRow Conn.insert pending
  cases answer with
  | ok =>
    cases tx with
    | none => exact (List.append_nil (committed ++ [s])).symm ▸ List.Sublist.refl _
    | some rows => exact List.Sublist.refl _
  | failAlone => exact .append_left (List.sublist_append_left _ _) _
  | failRollback => exact .append_left (List.nil_sublist _) _

/-- The end of a transaction commits the pending rows or drops them, or leaves them. -/
theorem endTransaction_sublist (conn : Conn Sample) (ok : Bool) (answer : CommitAnswer) :
    (endTransaction (conn, ok) answer).committed ++ pending (endTransaction (conn, ok) answer) <+
      conn.committed ++ pending conn := by
  obtain ⟨committed, tx⟩ := conn
  unfold endTransaction pending Conn.commit Conn.rollback
  cases ok with
  | false => exact .append_left (List.nil_sublist _) _
  | true =>
    cases tx with
    | none => exact List.Sublist.refl _
    | some rows =>
      cases answer with
      | ok => exact (List.append_nil (committed ++ rows)).symm ▸ List.Sublist.refl _
      | busy => exact List.Sublist.refl _
      | rolledBack => exact .append_left (List.nil_sublist _) _

/-- `queue_pop_batch` takes the first samples of the queue. -/
theorem writer_popped {maxn : Nat} (h : Flow g q) (hp : g.writerPc = .pop maxn) :
    Flow (g.popped maxn) (q.drop maxn) := by
  obtain ⟨htake, hdrop⟩ := h.rep.popBatch maxn
  have hsame : ∀ {l : List Sample}, l = q.take maxn → l ++ q.drop maxn = q :=
    fun e => e ▸ List.take_append_drop maxn q
  refine h.writer_move hdrop (fun r hr => Queue.popBatch_nodes hr) rfl rfl rfl ?_ ?_
  · have hinsert : (g.popped maxn).writerPc.toInsert = q.take maxn := by
      unfold TelemetryGateway.popped
      dsimp only
      rw [htake]
      split
      next e => exact e.symm
      next => rfl
    show g.writer.conn.committed ++ (pending g.writer.conn ++ (_ ++ _)) <+ _
    rw [hsame hinsert, hp]
    exact List.Sublist.refl _
  · have hbroadcast : (g.popped maxn).writerPc.toBroadcast = q.take maxn := by
      unfold TelemetryGateway.popped
      dsimp only
      rw [htake]
      split
      next e => exact e.symm
      next => rfl
    show g.writer.broadcasts.map BroadcastCall.sample ++ (_ ++ _) <+ _
    rw [hsame hbroadcast, hp]
    exact List.Sublist.refl _

theorem writer_step {c : WriterChoice} (h : Flow g q) (hstep : g.writerThreadStep c = some g') :
    ∃ q', Flow g' q' := by
  have hstay : ∀ {m : TelemetryGateway}, m.queue = g.queue → m.message = g.message →
      m.received = g.received → m.enqueued = g.enqueued → m.writer = g.writer →
      m.writerPc.toInsert <+ g.writerPc.toInsert →
      m.writerPc.toBroadcast <+ g.writerPc.toBroadcast → ∃ q', Flow m q' :=
    fun h1 h2 h3 h4 h5 h6 h7 =>
      ⟨q, h.writer_stay h1 h2 h3 h4 (h5 ▸ rfl) (h5 ▸ rfl) h6 h7⟩
  unfold TelemetryGateway.writerThreadStep at hstep
  split at hstep
  next hp =>
    cases hstep
    exact hstay rfl rfl rfl rfl rfl (List.nil_sublist _) (List.nil_sublist _)
  next hp =>
    cases hstep
    exact hstay rfl rfl rfl rfl rfl (List.nil_sublist _) (List.nil_sublist _)
  next maxn hp =>
    cases hstep
    refine hstay rfl rfl rfl rfl rfl ?_ ?_
    · cases g.running <;> exact List.nil_sublist _
    · cases g.running <;> exact List.nil_sublist _
  next maxn hp =>
    split at hstep
    · cases hstep
      exact hstay rfl rfl rfl rfl rfl (List.nil_sublist _) (List.nil_sublist _)
    · cases hstep
      exact ⟨_, h.writer_popped hp⟩
  next maxn woken hp =>
    split at hstep
    · cases hstep
      exact hstay rfl rfl rfl rfl rfl (List.nil_sublist _) (List.nil_sublist _)
    · cases hstep
  next maxn woken hp =>
    cases hstep
    exact hstay rfl rfl rfl rfl rfl (List.nil_sublist _) (List.nil_sublist _)
  next maxn batch t0 hp =>
    unfold Conn.begin at hstep
    split at hstep
    next conn hbegin =>
      split at hbegin
      next hand =>
        cases hbegin
        cases hstep
        refine ⟨q, h.writer_move h.rep (fun _ hr => hr) rfl rfl rfl ?_ ?_⟩
        · rw [hp]
          show _ ++ ([] ++ (batch ++ q)) <+ _ ++ (pending _ ++ (batch ++ q))
          rw [pending, hand.2]
          exact List.Sublist.refl _
        · rw [hp]
          exact List.Sublist.refl _
      next => cases hbegin
    next => cases hstep
  next maxn batch hp =>
    cases hstep
    exact hstay rfl rfl rfl rfl rfl (List.nil_sublist _) (List.nil_sublist _)
  next maxn ins s rest t0 ok answer hp =>
    cases hstep
    refine ⟨q, h.writer_move h.rep (fun _ hr => hr) rfl rfl rfl ?_ ?_⟩
    · have hsub := (insertRow_sublist g.writer.conn ok s answer).append
        (List.Sublist.refl (rest ++ q))
      simp only [List.append_assoc] at hsub
      rw [hp]
      exact hsub
    · rw [hp]
      show _ ++ (((ins ++ [s]) ++ rest) ++ q) <+ _ ++ ((ins ++ (s :: rest)) ++ q)
      rw [List.append_assoc ins]
      exact List.Sublist.refl _
  next maxn ins t0 ok hp =>
    cases hstep
    refine hstay rfl rfl rfl rfl rfl (List.nil_sublist _) ?_
    rw [hp]
    exact List.sublist_append_left ins []
  next maxn batch t0 ok answer hp =>
    cases hstep
    refine ⟨q, h.writer_move h.rep (fun _ hr => hr) rfl rfl rfl ?_ ?_⟩
    · have hsub := (endTransaction_sublist g.writer.conn ok answer).append
        (List.Sublist.refl q)
      simp only [List.append_assoc] at hsub
      rw [hp]
      exact hsub
    · rw [hp]
      exact List.Sublist.refl _
  next maxn batch t0 t1 hp =>
    cases hstep
    refine ⟨q, h.writer_stay rfl rfl rfl rfl rfl rfl (List.nil_sublist _) ?_⟩
    rw [hp]
    exact List.Sublist.refl _
  next maxn s rest hp =>
    cases hstep
    refine ⟨q, h.writer_move h.rep (fun _ hr => hr) rfl rfl rfl ?_ ?_⟩
    · rw [hp]
      exact List.Sublist.refl _
    · rw [hp]
      show (g.writer.broadcasts ++ [_]).map _ ++ (rest ++ q) <+ _ ++ ((s :: rest) ++ q)
      rw [List.map_append, List.append_assoc]
      exact List.Sublist.refl _
  next maxn s rest hp =>
    cases hstep
    refine hstay rfl rfl rfl rfl rfl (List.nil_sublist _) ?_
    rw [hp]
    exact List.sublist_cons_self s rest
  next maxn hp =>
    cases hstep
    exact hstay rfl rfl rfl rfl rfl (List.nil_sublist _) (List.nil_sublist _)
  next => cases hstep

theorem stop_step (h : Flow g q) (hstep : g.stopStep = some g') : ∃ q', Flow g' q' := by
  have hstay : ∀ {m : TelemetryGateway}, m.queue = g.queue → m.message = g.message →
      m.received = g.received → m.enqueued = g.enqueued → m.writer = g.writer →
      m.writerPc.toInsert = g.writerPc.toInsert →
      m.writerPc.toBroadcast = g.writerPc.toBroadcast → ∃ q', Flow m q' :=
    fun h1 h2 h3 h4 h5 h6 h7 => ⟨q, h.writer_stay h1 h2 h3 h4 (h5 ▸ rfl) (h5 ▸ rfl)
      (h6 ▸ List.Sublist.refl _) (h7 ▸ List.Sublist.refl _)⟩
  obtain ⟨-, rfl⟩ | ⟨-, rfl⟩ | ⟨-, -, rfl⟩ | ⟨-, -, rfl⟩ | ⟨-, rfl⟩ := stopStep_eq_some hstep
  · exact hstay rfl rfl rfl rfl rfl rfl rfl
  · exact hstay rfl rfl rfl rfl rfl (WriterPc.toInsert_signal _) (WriterPc.toBroadcast_signal _)
  · exact hstay rfl rfl rfl rfl rfl rfl rfl
  · exact hstay rfl rfl rfl rfl rfl rfl rfl
  · refine ⟨[], h.writer_move Queue.rep_empty (fun _ _ => rfl) rfl rfl rfl ?_ ?_⟩
    · exact .append_left (.append_left (.append_left (List.nil_sublist q) _) _) _
    · exact .append_left (.append_left (List.nil_sublist q) _) _

theorem init (batchSize : Int) : Flow (.init batchSize) [] where
  rep := Queue.rep_empty
  stored := List.Sublist.refl _
  shown := List.Sublist.refl _
  linked := List.Sublist.refl _
  serials := rfl
  serial := fun _ _ _ _ e => by cases e
  fresh := fun _ _ e => by cases e

theorem step {a : GatewayAction} (h : Flow g q) (hstep : g.step a = some g') :
    ∃ q', Flow g' q' := by
  cases a with
  | message c => exact h.message_step hstep
  | writer c => exact h.writer_step hstep
  | stop => exact h.stop_step hstep

/-- No message is received twice. -/
theorem received_nodup (h : Flow g q) : g.received.Nodup := by
  apply List.Nodup.of_map Sample.serial
  rw [h.serials]
  exact List.nodup_range

end Flow

theorem flow_of_run {batchSize : Int} {as : List GatewayAction} {g : TelemetryGateway}
    (h : exec TelemetryGateway.step (.init batchSize) as = some g) : ∃ q, Flow g q :=
  exec_preserves (I := fun g => ∃ q, Flow g q) (fun _ _ _ ⟨_, hI⟩ hstep => hI.step hstep)
    ⟨[], Flow.init batchSize⟩ h

/-- In every run the committed rows, and the samples broadcast, are messages received,
in their order and each at most once. -/
theorem committed_sublist_received {batchSize : Int} {as : List GatewayAction}
    {g : TelemetryGateway} (h : exec TelemetryGateway.step (.init batchSize) as = some g) :
    g.writer.conn.committed <+ g.received ∧
      g.writer.broadcasts.map BroadcastCall.sample <+ g.received ∧
      g.enqueued <+ g.received ∧ g.received.Nodup := by
  obtain ⟨q, hI⟩ := flow_of_run h
  exact ⟨(List.sublist_append_left _ _).trans hI.stored,
    (List.sublist_append_left _ _).trans hI.shown,
    (List.sublist_append_left _ _).trans hI.linked, hI.received_nodup⟩

end TelemetryTestbed.Gateway
