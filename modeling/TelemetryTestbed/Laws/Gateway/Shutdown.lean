import TelemetryTestbed.Laws.Gateway.Flow
import TelemetryTestbed.Laws.Gateway.Persistence

/-!
# Nothing lost, and what the shutdown loses

While the database answers, every sample that was enqueued is committed, in the
hands of the writer, in the queue, or discarded by the final sweep (`NoLoss`). The
sweep finds the queue empty unless the writer has left its loop with samples
behind it: `writer_thread` tests `running` before it looks at the queue, and
`on_message` may push after the writer is gone (`shutdown_complete_iff`).

The second law is over runs and has the two ways of losing a sample as its condition, step by
step. Both directions use `NoLoss`: what was enqueued is in one place at any time, so when the
gateway has stopped it is committed or discarded, and it is discarded exactly where the writer
did not come back for it.
-/

namespace TelemetryTestbed.Gateway

open TelemetryTestbed.Lib TelemetryTestbed.Telemetry
open scoped List

/-! ## What each party can do -/

/-- The batch in the hands of the writer that is not yet committed. -/
def WriterPc.inHand : WriterPc → List Sample
  | .begin _ batch | .endTx _ batch _ _ => batch
  | .insert _ inserted rest _ _ => inserted ++ rest
  | _ => []

/-- The transaction the writer has open, when nothing has failed in it. -/
def WriterPc.openTx : WriterPc → Option (List Sample)
  | .insert _ inserted _ _ _ => some inserted
  | .endTx _ batch _ _ => some batch
  | _ => none

/-- The flag `ok` of the batch. -/
def WriterPc.ok : WriterPc → Bool
  | .insert _ _ _ _ ok | .endTx _ _ _ ok => ok
  | _ => true

@[simp] theorem WriterPc.inHand_signal (pc : WriterPc) : pc.signal.inHand = pc.inHand := by
  cases pc <;> rfl

@[simp] theorem WriterPc.openTx_signal (pc : WriterPc) : pc.signal.openTx = pc.openTx := by
  cases pc <;> rfl

@[simp] theorem WriterPc.ok_signal (pc : WriterPc) : pc.signal.ok = pc.ok := by
  cases pc <;> rfl

theorem WriterPc.signal_eq_done {pc : WriterPc} : pc.signal = .done ↔ pc = .done := by
  cases pc <;> simp only [WriterPc.signal, reduceCtorEq]

/-- `telemetry_gateway_stop` has joined the writer. -/
def StopPc.joined : StopPc → Bool
  | .closeMqtt | .sweep | .returned => true
  | _ => false

/-- `mqtt_client_close` has returned. -/
def StopPc.closed : StopPc → Bool
  | .sweep | .returned => true
  | _ => false

variable {g g' : TelemetryGateway}

/-- `on_message` links one sample in, or leaves the queue alone. -/
theorem messageStep_cases {c : MessageChoice} (h : g.messageStep c = some g') :
    ((g'.queue = g.queue ∧ g'.writerPc = g.writerPc ∧ g'.enqueued = g.enqueued ∧
        ∀ r s, g.message ≠ .link r s) ∨
      ∃ r s, g.message = .link r s ∧ g'.queue = g.queue.push r s ∧
        g'.writerPc = g.writerPc.signal ∧ g'.enqueued = g.enqueued ++ [s]) ∧
    (g'.writer = g.writer ∧ g'.stop = g.stop ∧ g'.discarded = g.discarded) ∧
    (g.message = .idle → g.stop.closed = false) := by
  have hunlinked : ∀ {pc : MessagePc}, g.message = pc → (∀ r s, pc ≠ .link r s) →
      ∀ r s, g.message ≠ .link r s := fun hm hpc r s e => hpc r s (hm.symm.trans e)
  have hbusy : ∀ {pc : MessagePc}, g.message = pc → pc ≠ .idle → g.message = .idle →
      g.stop.closed = false := fun hm hpc e => absurd (hm.symm.trans e) hpc
  unfold TelemetryGateway.messageStep at h
  split at h
  next topic payload hm =>
    split at h
    next => cases h
    next hopen =>
      cases h
      refine ⟨Or.inl ⟨rfl, rfl, rfl, hunlinked hm nofun⟩, ⟨rfl, rfl, rfl⟩, fun _ => ?_⟩
      cases hstop : g.stop with
      | sweep => exact absurd (Or.inl hstop) hopen
      | returned => exact absurd (Or.inr hstop) hopen
      | idle | wake | joinWriter | closeMqtt => rfl
  next hm =>
    cases h
    exact ⟨Or.inl ⟨rfl, rfl, rfl, hunlinked hm nofun⟩, ⟨rfl, rfl, rfl⟩, hbusy hm nofun⟩
  next hm =>
    cases h
    exact ⟨Or.inl ⟨rfl, rfl, rfl, hunlinked hm nofun⟩, ⟨rfl, rfl, rfl⟩, hbusy hm nofun⟩
  next hm =>
    cases h
    exact ⟨Or.inl ⟨rfl, rfl, rfl, hunlinked hm nofun⟩, ⟨rfl, rfl, rfl⟩, hbusy hm nofun⟩
  next hm =>
    cases h
    exact ⟨Or.inl ⟨rfl, rfl, rfl, hunlinked hm nofun⟩, ⟨rfl, rfl, rfl⟩, hbusy hm nofun⟩
  next hm =>
    cases h
    exact ⟨Or.inl ⟨rfl, rfl, rfl, hunlinked hm nofun⟩, ⟨rfl, rfl, rfl⟩, hbusy hm nofun⟩
  next hm =>
    cases h
    exact ⟨Or.inl ⟨rfl, rfl, rfl, hunlinked hm nofun⟩, ⟨rfl, rfl, rfl⟩, hbusy hm nofun⟩
  next s r hm =>
    split at h
    next =>
      cases h
      exact ⟨Or.inl ⟨rfl, rfl, rfl, hunlinked hm nofun⟩, ⟨rfl, rfl, rfl⟩, hbusy hm nofun⟩
    next => cases h
  next r s hm =>
    cases h
    exact ⟨Or.inr ⟨r, s, hm, rfl, rfl, rfl⟩, ⟨rfl, rfl, rfl⟩, hbusy hm nofun⟩
  next => cases h

/-- `writer_thread` leaves the other parties alone, and does nothing once it is done. -/
theorem writerThreadStep_frame {c : WriterChoice} (h : g.writerThreadStep c = some g') :
    g'.message = g.message ∧ g'.stop = g.stop ∧ g'.discarded = g.discarded ∧
      g'.enqueued = g.enqueued ∧ g.writerPc ≠ .done := by
  unfold TelemetryGateway.writerThreadStep at h
  grind [TelemetryGateway.popped]

/-! ## The order of the shutdown -/

/-- What `telemetry_gateway_stop` has waited for, and what it has swept. -/
structure Stopping (g : TelemetryGateway) : Prop where
  joined : g.stop.joined = true → g.writerPc = .done
  closed : g.stop.closed = true → g.message = .idle
  kept : g.stop ≠ .returned → g.discarded = []
  swept : g.stop = .returned → g.queue = .empty

namespace Stopping

theorem init (batchSize : Int) : Stopping (.init batchSize) where
  joined h := by cases h
  closed h := by cases h
  kept _ := rfl
  swept h := by cases h

theorem message_step {c : MessageChoice} (hI : Stopping g) (h : g.messageStep c = some g') :
    Stopping g' := by
  obtain ⟨hqueue, ⟨-, hstop, hdiscarded⟩, hidle⟩ := messageStep_cases h
  have hbusy : g.stop.closed = false := by
    cases hclosed : g.stop.closed with
    | false => rfl
    | true => exact hclosed.symm.trans (hidle (hI.closed hclosed))
  have hnot : g.stop ≠ .returned := fun e => by rw [e] at hbusy; cases hbusy
  refine ⟨fun hj => ?_, fun hc => ?_, fun _ => hdiscarded.trans (hI.kept hnot), fun e => ?_⟩
  · have hdone := hI.joined (hstop ▸ hj)
    rcases hqueue with ⟨-, hpc, -, -⟩ | ⟨_, _, -, -, hpc, -⟩
    · exact hpc.trans hdone
    · exact hpc.trans (WriterPc.signal_eq_done.mpr hdone)
  · rw [hstop, hbusy] at hc
    cases hc
  · exact absurd (hstop ▸ e) hnot

theorem writer_step {c : WriterChoice} (hI : Stopping g) (h : g.writerThreadStep c = some g') :
    Stopping g' := by
  obtain ⟨hmessage, hstop, hdiscarded, -, hpc⟩ := writerThreadStep_frame h
  have hnot : ¬ g.stop.joined = true := fun hj => hpc (hI.joined hj)
  refine ⟨fun hj => absurd (hstop ▸ hj) hnot, fun hc => ?_, fun hr => ?_, fun hr => ?_⟩
  · rw [hmessage]
    exact hI.closed (hstop ▸ hc)
  · rw [hdiscarded]
    exact hI.kept (hstop ▸ hr)
  · refine absurd ?_ hnot
    rw [← hstop, hr]
    rfl

theorem stop_step (hI : Stopping g) (h : g.stopStep = some g') : Stopping g' := by
  have hkept : g.stop ≠ .returned → g.discarded = [] := hI.kept
  obtain ⟨hs, rfl⟩ | ⟨hs, rfl⟩ | ⟨hs, hpc, rfl⟩ | ⟨hs, hm, rfl⟩ | ⟨hs, rfl⟩ := stopStep_eq_some h
  · exact ⟨fun e => (by cases e), fun e => (by cases e), fun _ => hkept (by simp [hs]),
      fun e => (by cases e)⟩
  · exact ⟨fun e => (by cases e), fun e => (by cases e), fun _ => hkept (by simp [hs]),
      fun e => (by cases e)⟩
  · exact ⟨fun _ => hpc, fun e => (by cases e), fun _ => hkept (by simp [hs]),
      fun e => (by cases e)⟩
  · exact ⟨fun _ => hI.joined (by rw [hs]; rfl), fun _ => hm, fun _ => hkept (by simp [hs]),
      fun e => (by cases e)⟩
  · exact ⟨fun _ => hI.joined (by rw [hs]; rfl), fun _ => hI.closed (by rw [hs]; rfl),
      fun e => absurd rfl e, fun _ => rfl⟩

end Stopping

/-! ## Nothing lost -/

/-- No database step fails. -/
def databaseAnswers (g : TelemetryGateway) : GatewayAction → Bool
  | .writer (.inserted answer) => answer = .ok
  | .writer (.committed answer) => answer = .ok
  | .writer .failed =>
    match g.writerPc with
    | .begin .. => false
    | _ => true
  | _ => true

/-- Every enqueued sample is in one place: stored, in the hands of the writer, discarded by the
sweep or still in the queue, in the order of the enqueuing. -/
structure NoLoss (g : TelemetryGateway) : Prop where
  all : g.writer.conn.committed ++ (g.writerPc.inHand ++ (g.discarded ++ g.queue.contents)) =
    g.enqueued
  tx : g.writer.conn.tx = g.writerPc.openTx
  ok : g.writerPc.ok = true

namespace NoLoss

variable {q : List Sample}

theorem init (batchSize : Int) : NoLoss (.init batchSize) := ⟨rfl, rfl, rfl⟩

theorem message_step {c : MessageChoice} (hI : NoLoss g) (hF : Flow g q)
    (h : g.messageStep c = some g') : NoLoss g' := by
  obtain ⟨hqueue, ⟨hwriter, -, hdiscarded⟩, -⟩ := messageStep_cases h
  rcases hqueue with ⟨hqueue, hpc, henqueued, -⟩ | ⟨r, s, hm, hqueue, hpc, henqueued⟩
  · exact ⟨by rw [hwriter, hpc, hdiscarded, hqueue, henqueued]; exact hI.all,
      by rw [hwriter, hpc]; exact hI.tx, hpc ▸ hI.ok⟩
  · refine ⟨?_, ?_, ?_⟩
    · have hcontents := (hF.rep.push (s := s) (hF.fresh r s hm)).contents
      rw [hwriter, hpc, hdiscarded, hqueue, henqueued, hcontents, ← hF.rep.contents, ← hI.all,
        WriterPc.inHand_signal]
      simp only [List.append_assoc]
    · rw [hwriter, hpc, WriterPc.openTx_signal]
      exact hI.tx
    · rw [hpc, WriterPc.ok_signal]
      exact hI.ok

/-- The writer moves, and passes on what it has in hand. -/
theorem writer_move (hI : NoLoss g)
    (hall : g'.writer.conn.committed ++ g'.writerPc.inHand =
      g.writer.conn.committed ++ g.writerPc.inHand)
    (htx : g'.writer.conn.tx = g'.writerPc.openTx) (hok : g'.writerPc.ok = true)
    (hdiscarded : g'.discarded = g.discarded) (hqueue : g'.queue = g.queue)
    (henqueued : g'.enqueued = g.enqueued) : NoLoss g' := by
  refine ⟨?_, htx, hok⟩
  rw [← List.append_assoc, hall, hdiscarded, hqueue, henqueued, List.append_assoc]
  exact hI.all

/-- The writer moves between two steps of the database. -/
theorem writer_stay (hI : NoLoss g) (hconn : g'.writer.conn = g.writer.conn)
    (hinHand : g'.writerPc.inHand = g.writerPc.inHand)
    (hopen : g'.writerPc.openTx = g.writerPc.openTx) (hok : g'.writerPc.ok = true)
    (hdiscarded : g'.discarded = g.discarded) (hqueue : g'.queue = g.queue)
    (henqueued : g'.enqueued = g.enqueued) : NoLoss g' :=
  hI.writer_move (by rw [hconn, hinHand]) (by rw [hconn, hopen]; exact hI.tx) hok hdiscarded
    hqueue henqueued

theorem insertRow_ok {conn : Conn Sample} {rows : List Sample} (s : Sample)
    (h : conn.tx = some rows) :
    insertRow (conn, true) s .ok = (⟨conn.committed, some (rows ++ [s])⟩, true) := by
  unfold insertRow Conn.insert
  rw [h]
  rfl

theorem endTransaction_ok {conn : Conn Sample} {rows : List Sample} (h : conn.tx = some rows) :
    endTransaction (conn, true) .ok = ⟨conn.committed ++ rows, none⟩ := by
  unfold endTransaction Conn.commit
  rw [h]
  rfl

/-- A batch leaves the queue and is in the hands of the writer. -/
theorem writer_popped {maxn : Nat} (hI : NoLoss g) (hF : Flow g q) (hS : Stopping g)
    (hp : g.writerPc = .pop maxn) : NoLoss (g.popped maxn) := by
  obtain ⟨htake, hdrop⟩ := hF.rep.popBatch maxn
  have hempty : g.discarded = [] := by
    apply hS.kept
    intro e
    have hdone := hS.joined (by rw [e]; rfl)
    cases hdone.symm.trans hp
  have hinHand : (g.popped maxn).writerPc.inHand = q.take maxn := by
    unfold TelemetryGateway.popped
    dsimp only
    rw [htake]
    split
    next e => exact e.symm
    next => rfl
  refine ⟨?_, ?_, ?_⟩
  · have hall := hI.all
    rw [hp, hF.rep.contents, hempty] at hall
    show g.writer.conn.committed ++ (_ ++ (g.discarded ++
      (Queue.popBatch maxn g.queue).2.contents)) = g.enqueued
    rw [hinHand, hdrop.contents, hempty, List.nil_append, List.take_append_drop]
    exact hall
  · have htx := hI.tx
    rw [hp] at htx
    show g.writer.conn.tx = _
    rw [htx]
    unfold TelemetryGateway.popped
    dsimp only
    split <;> rfl
  · unfold TelemetryGateway.popped
    dsimp only
    split <;> rfl

theorem writer_step {c : WriterChoice} (hI : NoLoss g) (hF : Flow g q) (hS : Stopping g)
    (hg : databaseAnswers g (.writer c) = true) (h : g.writerThreadStep c = some g') :
    NoLoss g' := by
  have htx := hI.tx
  have hok := hI.ok
  unfold TelemetryGateway.writerThreadStep at h
  split at h
  next hp =>
    cases h
    exact hI.writer_stay rfl (hp ▸ rfl) (hp ▸ rfl) rfl rfl rfl rfl
  next hp =>
    cases h
    exact hI.writer_stay rfl (hp ▸ rfl) (hp ▸ rfl) rfl rfl rfl rfl
  next maxn hp =>
    cases h
    cases hrun : g.running with
    | true => exact hI.writer_stay rfl (hp ▸ rfl) (hp ▸ rfl) rfl rfl rfl rfl
    | false => exact hI.writer_stay rfl (hp ▸ rfl) (hp ▸ rfl) rfl rfl rfl rfl
  next maxn hp =>
    split at h
    · cases h
      exact hI.writer_stay rfl (hp ▸ rfl) (hp ▸ rfl) rfl rfl rfl rfl
    · cases h
      exact hI.writer_popped hF hS hp
  next maxn woken hp =>
    split at h
    · cases h
      exact hI.writer_stay rfl (hp ▸ rfl) (hp ▸ rfl) rfl rfl rfl rfl
    · cases h
  next maxn woken hp =>
    cases h
    exact hI.writer_stay rfl (hp ▸ rfl) (hp ▸ rfl) rfl rfl rfl rfl
  next maxn batch t0 hp =>
    unfold Conn.begin at h
    split at h
    next conn hbegin =>
      split at hbegin
      next =>
        cases hbegin
        cases h
        exact hI.writer_move (by rw [hp]; rfl) rfl rfl rfl rfl rfl
      next => cases hbegin
    next => cases h
  next maxn batch hp =>
    rw [databaseAnswers, hp] at hg
    cases hg
  next maxn ins s rest t0 ok answer hp =>
    rw [hp] at htx hok
    cases of_decide_eq_true hg
    cases hok
    rw [insertRow_ok s htx] at h
    cases h
    refine hI.writer_move ?_ rfl rfl rfl rfl rfl
    rw [hp]
    exact congrArg (g.writer.conn.committed ++ ·) (List.append_assoc ins [s] rest)
  next maxn ins t0 ok hp =>
    rw [hp] at hok
    cases h
    refine hI.writer_stay rfl ?_ (hp ▸ rfl) hok rfl rfl rfl
    rw [hp]
    exact (List.append_nil ins).symm
  next maxn batch t0 ok answer hp =>
    rw [hp] at htx hok
    cases of_decide_eq_true hg
    cases hok
    rw [endTransaction_ok htx] at h
    cases h
    refine hI.writer_move ?_ rfl rfl rfl rfl rfl
    rw [hp]
    exact List.append_nil _
  next maxn batch t0 t1 hp =>
    cases h
    exact hI.writer_stay rfl (hp ▸ rfl) (hp ▸ rfl) rfl rfl rfl rfl
  next maxn s rest hp =>
    cases h
    exact hI.writer_stay rfl (hp ▸ rfl) (hp ▸ rfl) rfl rfl rfl rfl
  next maxn s rest hp =>
    cases h
    exact hI.writer_stay rfl (hp ▸ rfl) (hp ▸ rfl) rfl rfl rfl rfl
  next maxn hp =>
    cases h
    exact hI.writer_stay rfl (hp ▸ rfl) (hp ▸ rfl) rfl rfl rfl rfl
  next => cases h

theorem stop_step (hI : NoLoss g) (hS : Stopping g) (h : g.stopStep = some g') : NoLoss g' := by
  obtain ⟨-, rfl⟩ | ⟨-, rfl⟩ | ⟨-, -, rfl⟩ | ⟨-, -, rfl⟩ | ⟨hs, rfl⟩ := stopStep_eq_some h
  · exact ⟨hI.all, hI.tx, hI.ok⟩
  · exact hI.writer_stay rfl (WriterPc.inHand_signal _) (WriterPc.openTx_signal _)
      ((WriterPc.ok_signal _).trans hI.ok) rfl rfl rfl
  · exact ⟨hI.all, hI.tx, hI.ok⟩
  · exact ⟨hI.all, hI.tx, hI.ok⟩
  · refine ⟨?_, hI.tx, hI.ok⟩
    have hall := hI.all
    rw [hS.kept (by simp [hs]), List.nil_append] at hall
    show _ ++ (_ ++ (g.queue.contents ++ Queue.empty.contents)) = _
    rw [Queue.rep_empty.contents, List.append_nil]
    exact hall

end NoLoss

/-- What holds of a run in which the database answers. -/
structure Sound (g : TelemetryGateway) : Prop where
  flow : ∃ q, Flow g q
  stopping : Stopping g
  noLoss : NoLoss g

theorem Sound.init (batchSize : Int) : Sound (.init batchSize) :=
  ⟨⟨[], Flow.init batchSize⟩, Stopping.init batchSize, NoLoss.init batchSize⟩

theorem Stopping.step {a : GatewayAction} (hI : Stopping g) (h : g.step a = some g') :
    Stopping g' := by
  cases a with
  | message c => exact hI.message_step h
  | writer c => exact hI.writer_step h
  | stop => exact hI.stop_step h

theorem Sound.step {a : GatewayAction} (hI : Sound g) (hg : databaseAnswers g a = true)
    (h : g.step a = some g') : Sound g' := by
  obtain ⟨⟨q, hF⟩, hS, hN⟩ := hI
  refine ⟨hF.step h, hS.step h, ?_⟩
  cases a with
  | message c => exact hN.message_step hF h
  | writer c => exact hN.writer_step hF hS hg h
  | stop => exact hN.stop_step hS h

/-- **Messages go through in order.** The machine is `on_message`, `writer_thread` and
`telemetry_gateway_stop`, in any interleaving and with any failures. In every state it reaches,
the committed rows and the broadcast samples are subsequences of the messages received, which
are all different; so is what was enqueued. While besides no database step has failed and the
stop has not freed the queue, the committed rows, the batch in hand and the queue are together
exactly what was enqueued, in that order. -/
theorem pipeline_in_order {batchSize : Int} {as : List GatewayAction} {g : TelemetryGateway}
    (h : exec TelemetryGateway.step (.init batchSize) as = some g) :
    (g.writer.conn.committed <+ g.received ∧
      g.writer.broadcasts.map BroadcastCall.sample <+ g.received ∧ g.received.Nodup) ∧
    (g.enqueued <+ g.received ∧
      (Guarded TelemetryGateway.step (fun g a => databaseAnswers g a) (.init batchSize) as →
        g.stop ≠ .returned →
          g.writer.conn.committed ++ (g.writerPc.inHand ++ g.queue.contents) = g.enqueued)) := by
  obtain ⟨hstored, hshown, hlinked, hnodup⟩ := committed_sublist_received h
  refine ⟨⟨hstored, hshown, hnodup⟩, hlinked, fun hg hstop => ?_⟩
  have hI : Sound g := exec_invariant (fun _ _ _ hI hg hstep => hI.step hg hstep)
    (Sound.init batchSize) hg h
  have hall := hI.noLoss.all
  rw [hI.stopping.kept hstop, List.nil_append] at hall
  exact hall

/-- An empty message arrives and is enqueued in the node at `r`. -/
def oneMessage (r : Addr) : List GatewayAction :=
  [.message (.arrives telemetryTopicState []), .message .go, .message (.unpacked .empty 0),
    .message .go, .message (.allocated r), .message .go]

/-- The writer pops one sample and commits it, up to the loop head. -/
def oneBatch : List GatewayAction :=
  [.writer .go, .writer .go, .writer (.began 0), .writer (.inserted .ok), .writer .go,
    .writer (.committed .ok), .writer (.time 0), .writer .go, .writer .go]

/-- Two messages are enqueued, and the writer has committed the first. -/
def oneOfTwo : List GatewayAction :=
  oneMessage 0 ++ oneMessage 1 ++ .writer .go :: oneBatch

theorem oneOfTwo_in_order :
    ∃ g, exec TelemetryGateway.step (.init 1) oneOfTwo = some g ∧
      g.writer.conn.committed ++ (g.writerPc.inHand ++ g.queue.contents) =
        [plainSample 0, plainSample 1] := by
  have hrun : (exec TelemetryGateway.step (.init 1) oneOfTwo).map
      (fun g => (g.stop, g.enqueued)) = some (.idle, [plainSample 0, plainSample 1]) := by
    decide
  obtain ⟨g, hg, hpair⟩ := Option.map_eq_some_iff.mp hrun
  obtain ⟨hstop, henqueued⟩ := Prod.mk.inj hpair
  refine ⟨g, hg, ?_⟩
  rw [← henqueued]
  exact (pipeline_in_order hg).2.2 (by decide) (by rw [hstop]; decide)

/-! ## The end of the run -/

/-- The writer is about to leave its loop, with samples in the queue. -/
def TelemetryGateway.abandons (g : TelemetryGateway) : Bool :=
  match g.writerPc with
  | .head _ => !g.running && g.queue.head.isSome
  | _ => false

/-- `queue_push` is about to link a sample in behind the writer. -/
def TelemetryGateway.linksLate (g : TelemetryGateway) : Bool :=
  match g.message, g.writerPc with
  | .link _ _, .done => true
  | _, _ => false

/-- The writer leaves its loop only with an empty queue, and nothing is linked in
behind it. -/
def drains (g : TelemetryGateway) : GatewayAction → Bool
  | .writer _ => !g.abandons
  | .message _ => !g.linksLate
  | .stop => true

theorem abandons_iff : g.abandons = true ↔
    (∃ maxn, g.writerPc = .head maxn) ∧ g.running = false ∧ g.queue.head ≠ none := by
  unfold TelemetryGateway.abandons
  split
  next maxn hp =>
    rw [Bool.and_eq_true, Bool.not_eq_true', Option.isSome_iff_ne_none]
    exact ⟨fun h => ⟨⟨maxn, hp⟩, h⟩, fun h => h.2⟩
  next hno => exact ⟨fun h => (by cases h), fun ⟨⟨maxn, hp⟩, _⟩ => absurd hp (hno maxn)⟩

theorem linksLate_iff : g.linksLate = true ↔
    (∃ r s, g.message = .link r s) ∧ g.writerPc = .done := by
  unfold TelemetryGateway.linksLate
  split
  next r s hm hp => exact ⟨fun _ => ⟨⟨r, s, hm⟩, hp⟩, fun _ => rfl⟩
  next hno => exact ⟨fun h => (by cases h), fun ⟨⟨r, s, hm⟩, hp⟩ => absurd hp (hno r s hm)⟩

/-- The writer has left nothing behind. -/
def Drained (g : TelemetryGateway) : Prop :=
  (g.writerPc = .done → g.queue.head = none) ∧ g.discarded = []

/-- The writer is done only after it has read `running = 0` at the loop head. -/
theorem writerThreadStep_done {c : WriterChoice} (h : g.writerThreadStep c = some g')
    (hdone : g'.writerPc = .done) :
    g'.queue = g.queue ∧ ∃ maxn, g.writerPc = .head maxn ∧ g.running = false := by
  unfold TelemetryGateway.writerThreadStep at h
  grind [TelemetryGateway.popped]

theorem writerThreadStep_leaves {c : WriterChoice} {maxn : Nat}
    (h : g.writerThreadStep c = some g') (hp : g.writerPc = .head maxn)
    (hrun : g.running = false) : g'.writerPc = .done ∧ g'.queue = g.queue := by
  unfold TelemetryGateway.writerThreadStep at h
  grind

/-- The sweep discards what is in the queue; every other step of
`telemetry_gateway_stop` leaves the samples alone. -/
theorem stopStep_cases (h : g.stopStep = some g') :
    (g'.queue = g.queue ∧ g'.discarded = g.discarded ∧
      (g'.writerPc = .done ↔ g.writerPc = .done)) ∨
    (g.stop = .sweep ∧ g'.queue = .empty ∧ g'.discarded = g.queue.contents) := by
  obtain ⟨-, rfl⟩ | ⟨-, rfl⟩ | ⟨-, -, rfl⟩ | ⟨-, -, rfl⟩ | ⟨hs, rfl⟩ := stopStep_eq_some h
  · exact Or.inl ⟨rfl, rfl, Iff.rfl⟩
  · exact Or.inl ⟨rfl, rfl, WriterPc.signal_eq_done⟩
  · exact Or.inl ⟨rfl, rfl, Iff.rfl⟩
  · exact Or.inl ⟨rfl, rfl, Iff.rfl⟩
  · exact Or.inr ⟨hs, rfl, rfl⟩

/-- `telemetry_gateway_stop` can only wake the writer. -/
theorem stopStep_writer (h : g.stopStep = some g') :
    g'.writer = g.writer ∧ (g'.writerPc = g.writerPc ∨ g'.writerPc = g.writerPc.signal) := by
  obtain ⟨-, rfl⟩ | ⟨-, rfl⟩ | ⟨-, -, rfl⟩ | ⟨-, -, rfl⟩ | ⟨-, rfl⟩ := stopStep_eq_some h
  · exact ⟨rfl, Or.inl rfl⟩
  · exact ⟨rfl, Or.inr rfl⟩
  · exact ⟨rfl, Or.inl rfl⟩
  · exact ⟨rfl, Or.inl rfl⟩
  · exact ⟨rfl, Or.inl rfl⟩

/-- A queue that something has been linked into is not empty. -/
theorem Queue.Rep.push_head {queue : Queue} {q : List Sample} {r : Addr} {s : Sample}
    (h : queue.Rep q) (hr : queue.nodes r = none) : (queue.push r s).head ≠ none := by
  intro hhead
  have hnil := (h.push (s := s) hr).head_eq_none.mp hhead
  rw [List.append_eq_nil_iff] at hnil
  cases hnil.2

namespace Drained

/-- A step that meets the condition leaves nothing behind. -/
theorem step {a : GatewayAction} {q : List Sample} (hd : Drained g) (hF : Flow g q)
    (hS : Stopping g) (hg : drains g a = true) (h : g.step a = some g') : Drained g' := by
  cases a with
  | message c =>
    obtain ⟨hqueue, ⟨-, -, hdiscarded⟩, -⟩ := messageStep_cases h
    refine ⟨fun hdone => ?_, hdiscarded.trans hd.2⟩
    rcases hqueue with ⟨hqueue, hpc, -, -⟩ | ⟨r, s, hm, -, hpc, -⟩
    · rw [hqueue]
      exact hd.1 (hpc ▸ hdone)
    · have hlate : g.linksLate = true :=
        linksLate_iff.mpr ⟨⟨r, s, hm⟩, WriterPc.signal_eq_done.mp (hpc ▸ hdone)⟩
      rw [drains, hlate] at hg
      cases hg
  | writer c =>
    obtain ⟨-, -, hdiscarded, -, -⟩ := writerThreadStep_frame h
    refine ⟨fun hdone => ?_, hdiscarded.trans hd.2⟩
    obtain ⟨hqueue, maxn, hp, hrun⟩ := writerThreadStep_done h hdone
    rw [hqueue]
    by_contra hhead
    rw [drains, abandons_iff.mpr ⟨⟨maxn, hp⟩, hrun, hhead⟩] at hg
    cases hg
  | stop =>
    rcases stopStep_cases h with ⟨hqueue, hdiscarded, hdone⟩ | ⟨hs, hqueue, hdiscarded⟩
    · exact ⟨fun e => hqueue ▸ hd.1 (hdone.mp e), hdiscarded.trans hd.2⟩
    · have hnil := hF.rep.head_eq_none.mp (hd.1 (hS.joined (by rw [hs]; rfl)))
      refine ⟨fun _ => hqueue ▸ rfl, ?_⟩
      rw [hdiscarded, hF.rep.contents, hnil]

/-- What has been left behind stays behind. -/
theorem back {a : GatewayAction} {q : List Sample} (hd : Drained g') (hF : Flow g q)
    (hS : Stopping g) (h : g.step a = some g') : Drained g := by
  cases a with
  | message c =>
    obtain ⟨hqueue, ⟨-, -, hdiscarded⟩, -⟩ := messageStep_cases h
    refine ⟨fun hdone => ?_, hdiscarded.symm.trans hd.2⟩
    rcases hqueue with ⟨hqueue, hpc, -, -⟩ | ⟨r, s, hm, hqueue, hpc, -⟩
    · exact hqueue ▸ hd.1 (hpc.trans hdone)
    · have hhead := hd.1 (hpc.trans (WriterPc.signal_eq_done.mpr hdone))
      exact absurd (hqueue ▸ hhead) (hF.rep.push_head (hF.fresh r s hm))
  | writer c =>
    obtain ⟨-, -, hdiscarded, -, hpc⟩ := writerThreadStep_frame h
    exact ⟨fun hdone => absurd hdone hpc, hdiscarded.symm.trans hd.2⟩
  | stop =>
    rcases stopStep_cases h with ⟨hqueue, hdiscarded, hdone⟩ | ⟨hs, -, hdiscarded⟩
    · exact ⟨fun e => hqueue ▸ hd.1 (hdone.mpr e), hdiscarded.symm.trans hd.2⟩
    · have hnil : g.queue.contents = [] := hdiscarded.symm.trans hd.2
      rw [hF.rep.contents] at hnil
      exact ⟨fun _ => hF.rep.head_eq_none.mpr hnil, hS.kept (by simp [hs])⟩

/-- A step that leaves nothing behind met the condition. -/
theorem drains_of_step {a : GatewayAction} {q : List Sample} (hd : Drained g') (hF : Flow g q)
    (h : g.step a = some g') : drains g a = true := by
  cases a with
  | message c =>
    rw [drains, Bool.not_eq_true', ← Bool.not_eq_true, linksLate_iff]
    rintro ⟨⟨r, s, hm⟩, hdone⟩
    obtain ⟨⟨-, -, -, hno⟩ | ⟨r', s', hm', hqueue, hpc, -⟩, -, -⟩ := messageStep_cases h
    · exact hno r s hm
    · have hhead := hd.1 (hpc.trans (WriterPc.signal_eq_done.mpr hdone))
      exact absurd (hqueue ▸ hhead) (hF.rep.push_head (hF.fresh r' s' hm'))
  | writer c =>
    rw [drains, Bool.not_eq_true', ← Bool.not_eq_true, abandons_iff]
    rintro ⟨⟨maxn, hp⟩, hrun, hhead⟩
    obtain ⟨hdone, hqueue⟩ := writerThreadStep_leaves h hp hrun
    exact hhead (hqueue ▸ hd.1 hdone)
  | stop => rfl

end Drained

/-- A run that ends with nothing left behind had left nothing behind at any time. -/
theorem Drained.of_exec {q : List Sample} (hd : Drained g') (as : List GatewayAction)
    (hF : Flow g q) (hS : Stopping g) (h : exec TelemetryGateway.step g as = some g') :
    Drained g := by
  induction as generalizing g q with
  | nil =>
    cases h
    exact hd
  | cons a as ih =>
    obtain ⟨m, hm, hrest⟩ := exec_cons h
    obtain ⟨q', hF'⟩ := hF.step hm
    exact (ih hF' (hS.step hm) hrest).back hF hS hm

/-- When `telemetry_gateway_stop` has returned, what was enqueued is committed or
discarded. -/
theorem Sound.swept (hI : Sound g) (hret : g.stop = .returned) :
    g.writer.conn.committed ++ g.discarded = g.enqueued := by
  have hall := hI.noLoss.all
  rw [hI.stopping.joined (by rw [hret]; rfl), hI.stopping.swept hret,
    Queue.rep_empty.contents, List.append_nil] at hall
  exact hall

/-- **When nothing is lost at the end.** The runs are those in which no database step fails
(`hok`) and `telemetry_gateway_stop` has returned (`hret`). Every enqueued sample has then been
committed exactly once and none was discarded, if and only if the writer left its loop only with
an empty queue and no push linked a sample in behind it. Nothing in the program brings that
about: the test of `running` comes first in the loop, and the sweep of the queue does not store
what it finds. -/
theorem shutdown_complete_iff {batchSize : Int} {as : List GatewayAction} {g : TelemetryGateway}
    (h : exec TelemetryGateway.step (.init batchSize) as = some g)
    (hok : Guarded TelemetryGateway.step (fun g a => databaseAnswers g a) (.init batchSize) as)
    (hret : g.stop = .returned) :
    Guarded TelemetryGateway.step (fun g a => drains g a) (.init batchSize) as ↔
      (∀ s ∈ g.enqueued, g.writer.conn.committed.count s = 1) ∧ g.discarded = [] := by
  have hsound : ∀ {pre m}, Guarded TelemetryGateway.step (fun g a => databaseAnswers g a)
      (.init batchSize) pre → exec TelemetryGateway.step (.init batchSize) pre = some m →
      Sound m :=
    fun hg hm => exec_invariant (fun _ _ _ hI hg hstep => hI.step hg hstep)
      (Sound.init batchSize) hg hm
  have hI := hsound hok h
  have hinit : Sound (.init batchSize) ∧ Drained (.init batchSize) :=
    ⟨Sound.init batchSize, fun _ => rfl, rfl⟩
  rw [guarded_iff_forall_reached (I := fun g => Sound g ∧ Drained g) (P := Drained)
    (fun _ hI => hI.2) ?_ ?_ hinit hok h]
  · constructor
    · intro hall
      have hd := hall as [] g (List.append_nil as).symm h
      have hswept := hI.swept hret
      rw [hd.2, List.append_nil] at hswept
      obtain ⟨-, -, hlinked, hnodup⟩ := committed_sublist_received h
      refine ⟨fun s hs => ?_, hd.2⟩
      rw [hswept]
      exact List.count_eq_one_of_mem (hlinked.nodup hnodup) hs
    · intro hend pre post m happ hm
      have hempty : Drained g :=
        ⟨fun _ => by rw [hI.stopping.swept hret]; rfl, hend.2⟩
      have hIm := hsound (happ ▸ hok).left hm
      obtain ⟨q, hF⟩ := hIm.flow
      apply hempty.of_exec post hF hIm.stopping
      rw [happ, exec_append, hm] at h
      exact h
  · rintro s a s' ⟨hI, hd⟩ hscope hg hstep
    obtain ⟨q, hF⟩ := hI.flow
    exact ⟨hI.step hscope hstep, hd.step hF hI.stopping hg hstep⟩
  · rintro s a s' ⟨hI, -⟩ - hstep hd
    obtain ⟨q, hF⟩ := hI.flow
    exact hd.drains_of_step hF hstep

/-- `telemetry_gateway_stop` with a writer that is at its loop head. -/
def stopAtHead : List GatewayAction :=
  [.stop, .writer .go, .stop, .stop, .stop, .stop]

/-- One message, committed before the stop. -/
def orderlyStop : List GatewayAction :=
  oneMessage 0 ++ .writer .go :: oneBatch ++ stopAtHead

theorem orderlyStop_complete :
    ∃ g, exec TelemetryGateway.step (.init 1) orderlyStop = some g ∧ g.stop = .returned ∧
      g.enqueued = [plainSample 0] ∧
      (∀ s ∈ g.enqueued, g.writer.conn.committed.count s = 1) ∧ g.discarded = [] := by
  have hrun : (exec TelemetryGateway.step (.init 1) orderlyStop).map
      (fun g => (g.stop, g.enqueued)) = some (.returned, [plainSample 0]) := by decide
  obtain ⟨g, hg, hpair⟩ := Option.map_eq_some_iff.mp hrun
  obtain ⟨hret, henqueued⟩ := Prod.mk.inj hpair
  exact ⟨g, hg, hret, henqueued,
    (shutdown_complete_iff hg (by decide) hret).mp (by decide)⟩

/-- Batches of one; two messages are enqueued, and the stop comes when the first has
been committed. -/
def stopBetweenBatches : List GatewayAction :=
  oneOfTwo ++ stopAtHead

/-- The second sample is discarded with the queue, though nothing failed. -/
theorem stopBetweenBatches_discards :
    ∃ g, exec TelemetryGateway.step (.init 1) stopBetweenBatches = some g ∧
      Guarded TelemetryGateway.step (fun g a => databaseAnswers g a) (.init 1)
        stopBetweenBatches ∧
      g.stop = .returned ∧ plainSample 1 ∈ g.enqueued ∧
      plainSample 1 ∉ g.writer.conn.committed ∧ g.discarded = [plainSample 1] := by
  have hrun : (exec TelemetryGateway.step (.init 1) stopBetweenBatches).map
      (fun g => (g.stop, g.enqueued, g.writer.conn.committed, g.discarded)) =
        some (.returned, [plainSample 0, plainSample 1], [plainSample 0], [plainSample 1]) := by
    decide
  obtain ⟨g, hg, hparts⟩ := Option.map_eq_some_iff.mp hrun
  obtain ⟨hret, hparts⟩ := Prod.mk.inj hparts
  obtain ⟨henqueued, hparts⟩ := Prod.mk.inj hparts
  obtain ⟨hcommitted, hdiscarded⟩ := Prod.mk.inj hparts
  refine ⟨g, hg, by decide, hret, ?_, ?_, hdiscarded⟩
  · rw [henqueued]
    exact List.mem_cons_of_mem _ List.mem_cons_self
  · rw [hcommitted]
    decide

end TelemetryTestbed.Gateway
