import Mathlib.Data.List.DropRight
import TelemetryTestbed.Laws.WebSocket.Framing
import TelemetryTestbed.Laws.WebSocket.Records

/-!
# After a send has failed part-way

A broadcast removes the client on which its send failed, and the `client_thread`
that could not send its close reply closes the connection. The sends whose result
`client_thread` ignores (status, pong, history and errors) are followed by the
next turn of its loop, and by more frames behind the part of one.

The condition of the runs that fail-stop has three parts: no ignored send fails
part-way (`heedsFailure`), nothing is sent while the party whose send has failed
is still on its way to `close` (`letsRetire`), and a descriptor or a record is not
used for another connection than its own (`usesOwn`). The invariant is, for
every connection, where the reader of the channel stands, and, where a frame was
cut short, who is about to close the connection or that it is closed.

What is not established: that the condition holds of the program. It does not, and the run
`pongAfterFailedStatus` at the end shows what happens otherwise: a status that failed part-way
is followed by the pong of the next ping. Sends that overlap are another matter, the one of
whole frames, and are left out by the setting.
-/

namespace TelemetryTestbed.WebSocket

open TelemetryTestbed.Lib

/-! ## The setting, the condition and the property -/

def Chunk.isFrame : Chunk → Bool
  | .http _ => false
  | .frame _ _ => true

/-- What has been written since the handshake response. -/
def sinceResponse (wire : List Chunk) : List Chunk := wire.rtakeWhile Chunk.isFrame

/-- The thread has a call under way that sends. -/
def ThreadPc.calls : ThreadPc → Bool
  | respond _ _ _ _ | sending _ _ _ _ => true
  | _ => false

/-- A broadcast has a call under way that sends on the connection. -/
def Server.bcastCalls (s : Server) (k : ConnId) : Bool :=
  match s.bcast with
  | some ⟨_, .sending _ p _ _ _⟩ => p.conn = k
  | _ => false

/-- The setting: the calls that send on a connection do not overlap. -/
def Server.oneByOne (s : Server) : Action → Bool
  | .thread k (.sent _) => !s.bcastCalls k
  | .bcast (.sent _) =>
    match s.bcast with
    | some ⟨_, .sending _ p _ _ _⟩ => !(s.thread p.conn).calls
    | _ => true
  | _ => true

/-- Part of a frame is out on the connection, and nobody goes on with it. -/
def Server.cutShort (s : Server) (k : ConnId) : Bool :=
  (followAll FrameCall.bytes (framePieces (sinceResponse (s.wire k)))).join.isSome &&
    (s.position k).isNone

/-- No send whose result `client_thread` ignores fails part-way. -/
def Server.heedsFailure (s : Server) : Action → Bool
  | .thread k .failed =>
    match s.thread k with
    | .sending _ _ out .loop => !out.midFrame
    | _ => true
  | _ => true

/-- A broadcast is removing the client, and has not closed its descriptor. -/
def Server.bcastRetires (s : Server) (k : ConnId) : Bool :=
  (s.bcast.bind fun b => b.pc.retires) = some k

/-- Where a frame was cut short, nothing is sent by the other party while the one
whose send has failed is about to close the connection. -/
def Server.letsRetire (s : Server) : Action → Bool
  | .thread k (.sent _) => !(s.cutShort k && s.bcastRetires k)
  | .bcast (.sent _) =>
    match s.bcast with
    | some ⟨_, .sending _ p _ _ _⟩ => !(s.cutShort p.conn && (s.thread p.conn).leaves)
    | _ => true
  | _ => true

/-- The descriptor of a `send`, and the record that a party whose send has failed
part-way reads it from to close it, are those of its own connection, and not by now
those of another. -/
def Server.usesOwn (s : Server) : Action → Bool
  | .thread k (.sent _) =>
    match s.thread k with
    | .respond _ fd _ _ | .sending _ fd _ _ => s.store.fds fd = some k
    | _ => true
  | .thread k .go =>
    match s.thread k with
    | .close p => !s.cutShort k || (s.store.heap p.addr).named?.map Prod.fst = some k
    | _ => true
  | .bcast (.sent _) =>
    match s.bcast with
    | some ⟨_, .sending _ p _ fd _⟩ => s.store.fds fd = some p.conn
    | _ => true
  | .bcast .go =>
    match s.bcast with
    | some ⟨_, .close _ p _⟩ =>
      !s.cutShort p.conn || (s.store.heap p.addr).named?.map Prod.fst = some p.conn
    | _ => true
  | _ => true

/-- What a step has to be so that a connection falls silent after a failed `send`: the failure
is heeded, the party that saw it gets to its `close`, and nobody uses another's descriptor. Each
part looks at the state before the step and at the action. -/
def Server.closesAfterFailure (s : Server) (a : Action) : Prop :=
  s.heedsFailure a = true ∧ s.letsRetire a = true ∧ s.usesOwn a = true

instance (s : Server) (a : Action) : Decidable (s.closesAfterFailure a) :=
  inferInstanceAs (Decidable (_ ∧ _))

/-- The action is a `send` that fails after a part of its frame is out. -/
def Server.failsPartWay (s : Server) (k : ConnId) : Action → Bool
  | .thread j .failed => j = k && (s.threadOpen k).isSome
  | .bcast .failed => (s.bcastOpen k).isSome
  | _ => false

/-- What holds of a run and of the state it reaches. `silent` looks back at every `send` that
failed part-way: the wire of its connection is now as it was then. `frames` looks at what was
written since the response of the handshake: whole frames, and then at most a part of one. -/
structure FailStop (as : List Action) (s : Server) : Prop where
  silent : ∀ pre a post m k, as = pre ++ a :: post →
    exec Server.step Server.init pre = some m → m.failsPartWay k a = true →
    s.wire k = m.wire k
  frames : ∀ k, FramesIntact (sinceResponse (s.wire k))

theorem sinceResponse_frame (wire : List Chunk) (call : FrameCall) (bytes : Bytes) :
    sinceResponse (wire ++ [.frame call bytes]) = sinceResponse wire ++ [.frame call bytes] :=
  List.rtakeWhile_concat_pos _ _ _ rfl

theorem sinceResponse_http (wire : List Chunk) (bytes : Bytes) :
    sinceResponse (wire ++ [.http bytes]) = [] :=
  List.rtakeWhile_concat_neg _ _ _ Bool.false_ne_true

/-! ## The invariant of a connection -/

/-- The connection is closed, or some party is about to close it: a broadcast that has seen its
`send` fail, or the thread on its way out of its loop. -/
inductive Server.Retired (s : Server) (k : ConnId) : Prop
  | closed (h : s.Closed k)
  | byBroadcast (h : s.bcastRetires k = true)
  | byThread (h : (s.thread k).leaves = true)

/-- What each of the three becomes in a step. -/
theorem Server.Retired.move {s s' : Server} {k : ConnId} (h : s.Retired k)
    (hclosed : s.Closed k → s'.Closed k) (hbcast : s.bcastRetires k = true → s'.Retired k)
    (hthread : (s.thread k).leaves = true → s'.Retired k) : s'.Retired k := by
  cases h with
  | closed h => exact .closed (hclosed h)
  | byBroadcast h => exact hbcast h
  | byThread h => exact hthread h

/-- The invariant of one connection. What its two writers have out and in hand are frames of the
server, not both of them are within a frame, and `reader` says where the reader of the wire
stands: where the writer stands, or within a frame that was cut short, and then the connection
is being retired. -/
structure Channel (s : Server) (k : ConnId) : Prop where
  reply : ∀ p frame next, s.thread k = .reply p frame next → SentFrame frame
  threadOut : ∀ o, (s.thread k).out? = some o → o.Ok s.nextCall
  bcastOut : ∀ b o, s.bcast = some b → b.pc.target = some k → b.pc.out? = some o →
    o.Ok s.nextCall
  apart : s.threadOpen k = none ∨ s.bcastOpen k = none
  pieces : ∀ f ∈ framePieces (sinceResponse (s.wire k)),
    f.2 ≠ [] ∧ ∃ frame, SentFrame frame ∧ f.1.bytes = frame.flatten
  reader : ∃ o, followAll FrameCall.bytes (framePieces (sinceResponse (s.wire k))) = some o ∧
    (o = s.position k ∨ s.position k = none ∧ s.Retired k)

theorem Server.cutShort_iff {s : Server} {k : ConnId} : s.cutShort k = true ↔
    s.position k = none ∧ ∃ part,
      followAll FrameCall.bytes (framePieces (sinceResponse (s.wire k))) = some (some part) := by
  simp only [Server.cutShort, Bool.and_eq_true, Option.isNone_iff_eq_none,
    Option.isSome_iff_exists, Option.join_eq_some_iff, and_comm]

namespace Channel

variable {s s' : Server} {k : ConnId}

theorem init (k : ConnId) : Channel Server.init k where
  reply := nofun
  threadOut := nofun
  bcastOut := nofun
  apart := Or.inl rfl
  pieces := fun _ hf => absurd hf List.not_mem_nil
  reader := ⟨none, rfl, Or.inl rfl⟩

theorem framesIntact (h : Channel s k) : FramesIntact (sinceResponse (s.wire k)) := by
  obtain ⟨o, hread, _⟩ := h.reader
  exact ⟨framed_of_followAll (fun f hf => (h.pieces f hf).1) hread,
    fun f hf => (h.pieces f hf).2⟩

/-- Where a frame was cut short, the connection is closed or about to be. -/
theorem retired_of_cutShort (h : Channel s k) (hcut : s.cutShort k = true) :
    s.Retired k := by
  obtain ⟨hpos, part, hpart⟩ := Server.cutShort_iff.mp hcut
  obtain ⟨o, hread, rfl | ⟨_, hretired⟩⟩ := h.reader
  · rw [hpart, hpos] at hread
    cases hread
  · exact hretired

/-- Elsewhere the reader stands where the senders are. -/
theorem reader_of_not_cutShort (h : Channel s k) (hcut : s.cutShort k = false) :
    followAll FrameCall.bytes (framePieces (sinceResponse (s.wire k))) =
      some (s.position k) := by
  obtain ⟨o, hread, rfl | ⟨hpos, _⟩⟩ := h.reader
  · exact hread
  · cases o with
    | none => rw [hread, hpos]
    | some part =>
      rw [Server.cutShort_iff.mpr ⟨hpos, part, hread⟩] at hcut
      cases hcut

/-- A step and the connection: it keeps the invariant, and adds nothing where a
frame was cut short. -/
def Kept (s s' : Server) (k : ConnId) : Prop :=
  Channel s' k ∧ (s.cutShort k = true → s'.wire k = s.wire k ∧ s'.cutShort k = true)

/-- Nothing is written, and no frame is opened; where one is given up, the
connection is about to be closed. -/
theorem quiet (h : Channel s k)
    (hwire : s'.wire k = s.wire k)
    (hreply : ∀ p frame next, s'.thread k = .reply p frame next → SentFrame frame)
    (hthread : ∀ o, (s'.thread k).out? = some o → o.Ok s'.nextCall)
    (hbcast : ∀ b o, s'.bcast = some b → b.pc.target = some k → b.pc.out? = some o →
      o.Ok s'.nextCall)
    (hapart : s'.threadOpen k = none ∨ s'.bcastOpen k = none)
    (hpos : s'.position k = s.position k ∨ s'.position k = none ∧ s'.Retired k)
    (hretired : s.cutShort k = true → s.Retired k → s'.Retired k) : Kept s s' k := by
  refine ⟨⟨hreply, hthread, hbcast, hapart, hwire ▸ h.pieces, ?_⟩, fun hcut => ⟨hwire, ?_⟩⟩
  · obtain ⟨o, hread, ho⟩ := h.reader
    refine ⟨o, hwire ▸ hread, ?_⟩
    rcases hpos with hpos | hpos
    · rw [hpos]
      rcases ho with ho | ⟨hnone, hr⟩
      · exact Or.inl ho
      · cases o with
        | none => exact Or.inl hnone.symm
        | some part =>
          exact Or.inr ⟨hnone, hretired (Server.cutShort_iff.mpr ⟨hnone, part, hread⟩) hr⟩
    · exact Or.inr hpos
  · obtain ⟨hnone, part, hpart⟩ := Server.cutShort_iff.mp hcut
    refine Server.cutShort_iff.mpr ⟨?_, part, hwire ▸ hpart⟩
    rcases hpos with hpos | hpos
    · rw [hpos, hnone]
    · exact hpos.1

/-- A piece of the frame of `o` is written. -/
theorem send {o : Sending} {w : Nat} (h : Channel s k) (hcut : s.cutShort k = false)
    (hok : o.Ok s.nextCall) (hw : ¬ (w = 0 ∨ o.buf.length < w))
    (hwire : s'.wire k = s.wire k ++ [.frame o.call (o.buf.take w)])
    (hold : s.position k = o.position)
    (hnew : s'.position k =
      ((o.advance w).filter Sending.midFrame).map fun o => (o.call, o.sent))
    (hreply : ∀ p frame next, s'.thread k = .reply p frame next → SentFrame frame)
    (hthread : ∀ o, (s'.thread k).out? = some o → o.Ok s'.nextCall)
    (hbcast : ∀ b o, s'.bcast = some b → b.pc.target = some k → b.pc.out? = some o →
      o.Ok s'.nextCall)
    (hapart : s'.threadOpen k = none ∨ s'.bcastOpen k = none) : Kept s s' k := by
  have hpieces : framePieces (sinceResponse (s'.wire k)) =
      framePieces (sinceResponse (s.wire k)) ++ [(o.call, o.buf.take w)] := by
    rw [hwire, sinceResponse_frame, framePieces_concat]
    rfl
  refine ⟨⟨hreply, hthread, hbcast, hapart, fun f hf => ?_, ?_⟩,
    fun e => Bool.noConfusion (hcut.symm.trans e)⟩
  · rw [hpieces] at hf
    rcases List.mem_append.mp hf with hf | hf
    · exact h.pieces f hf
    · rw [List.mem_singleton.mp hf]
      exact ⟨hok.take_ne_nil hw, hok.frame⟩
  · refine ⟨s'.position k, ?_, Or.inl rfl⟩
    rw [hpieces, followAll_concat, h.reader_of_not_cutShort hcut, Option.bind_some, hold,
      hok.follow_send hw, hnew, hok.advance_position hw]

/-- Bytes of the handshake response are written. -/
theorem response {bytes : Bytes} (hcut : s.cutShort k = false)
    (hwire : s'.wire k = s.wire k ++ [.http bytes]) (hpos : s'.position k = none)
    (hreply : ∀ p frame next, s'.thread k = .reply p frame next → SentFrame frame)
    (hthread : ∀ o, (s'.thread k).out? = some o → o.Ok s'.nextCall)
    (hbcast : ∀ b o, s'.bcast = some b → b.pc.target = some k → b.pc.out? = some o →
      o.Ok s'.nextCall)
    (hapart : s'.threadOpen k = none ∨ s'.bcastOpen k = none) : Kept s s' k := by
  have hnil : framePieces (sinceResponse (s'.wire k)) = [] := by
    rw [hwire, sinceResponse_http]
    rfl
  refine ⟨⟨hreply, hthread, hbcast, hapart, fun f hf => ?_, none, ?_, Or.inl hpos.symm⟩,
    fun e => Bool.noConfusion (hcut.symm.trans e)⟩
  · rw [hnil] at hf
    exact absurd hf List.not_mem_nil
  · rw [hnil]
    rfl

/-! ### Threads -/

theorem threadOpen_eq (e : s'.thread k = s.thread k) : s'.threadOpen k = s.threadOpen k := by
  rw [Server.threadOpen, Server.threadOpen, e]

theorem bcastOpen_eq (e : s'.bcast = s.bcast) (k : ConnId) :
    s'.bcastOpen k = s.bcastOpen k := by
  rw [Server.bcastOpen, Server.bcastOpen, e]

/-- The step of another party, on a connection it does not write to. -/
theorem other (h : Channel s k) (hcalls : s.nextCall ≤ s'.nextCall)
    (hwire : s'.wire k = s.wire k)
    (hthread : s'.thread k = s.thread k ∨ s.thread k = .absent ∧ ∃ p, s'.thread k = .start p)
    (hbcast : s'.bcast = s.bcast) (hclosed : s.Closed k → s'.Closed k) : Kept s s' k := by
  have hout : (s'.thread k).out? = (s.thread k).out? := by
    rcases hthread with e | ⟨e, p, e'⟩
    · rw [e]
    · rw [e, e']
      rfl
  have hthreadOpen : s'.threadOpen k = s.threadOpen k := by
    rw [Server.threadOpen, Server.threadOpen, hout]
  refine h.quiet hwire (fun p frame next e => ?_) (fun o ho => ?_) (fun b o hb ht ho => ?_) ?_
    (Or.inl ?_) ?_
  · rcases hthread with e' | ⟨_, q, e'⟩
    · exact h.reply p frame next (e' ▸ e)
    · rw [e'] at e
      cases e
  · exact (h.threadOut o (hout ▸ ho)).mono hcalls
  · exact (h.bcastOut b o (hbcast ▸ hb) ht ho).mono hcalls
  · rw [hthreadOpen, bcastOpen_eq hbcast]
    exact h.apart
  · rw [Server.position, Server.position, hthreadOpen, bcastOpen_eq hbcast]
  · refine fun _ hr => hr.move hclosed (fun hb => .byBroadcast ?_) fun ht => ?_
    · rwa [Server.bcastRetires, hbcast]
    · rcases hthread with e | ⟨e, _⟩
      · exact .byThread (e ▸ ht)
      · rw [e] at ht
        cases ht

/-- What the thread sends goes where no frame was cut short. -/
theorem thread_sends {fd : Fd} {w : Nat} (h : Channel s k)
    (hretire : s.letsRetire (.thread k (.sent w)) = true) (hfd : s.store.fds fd = some k)
    (hleaves : (s.thread k).leaves = false) : s.cutShort k = false := by
  rw [Server.letsRetire, Bool.not_eq_true', Bool.and_eq_false_iff] at hretire
  rcases hretire with hcut | hbcast
  · exact hcut
  · by_contra hcut
    rw [Bool.not_eq_false] at hcut
    cases h.retired_of_cutShort hcut with
    | closed hc => exact hc.2 fd hfd
    | byBroadcast hb => exact Bool.noConfusion (hbcast.symm.trans hb)
    | byThread ht => exact Bool.noConfusion (hleaves.symm.trans ht)

theorem bcastOpen_of_not_calls (h : s.bcastCalls k = false) : s.bcastOpen k = none := by
  unfold Server.bcastOpen
  split
  next b hb =>
    split
    next htarget =>
      obtain ⟨msg, pc⟩ := b
      cases pc with
      | sending seen p rest fd out =>
        rw [Server.bcastCalls, hb] at h
        exact absurd (Option.some.inj htarget) (of_decide_eq_false h)
      | _ => rfl
    next => rfl
  next => rfl

section

variable {c : Choice} {pc : ThreadPc}

theorem threadOpen_to (hto : s.ThreadTo s' k pc) :
    s'.threadOpen k = pc.out?.filter Sending.midFrame := by
  rw [Server.threadOpen, hto.thread, Function.update_self]

theorem bcastOut_to (h : Channel s k) (hto : s.ThreadTo s' k pc) (b : Broadcast)
    (o : Sending) (hb : s'.bcast = some b) (ht : b.pc.target = some k)
    (ho : b.pc.out? = some o) : o.Ok s'.nextCall :=
  (h.bcastOut b o (hto.bcast ▸ hb) ht ho).mono hto.calls

theorem retired_to (hrec : Recorded s) (hto : s.ThreadTo s' k pc)
    (hleaves : s.cutShort k = true → (s.thread k).leaves = true → s'.Retired k)
    (hcut : s.cutShort k = true) (hr : s.Retired k) : s'.Retired k := by
  refine hr.move (fun hk => hk.keeps (hto.store.keeps hrec.points))
    (fun hb => .byBroadcast ?_) (hleaves hcut)
  rwa [Server.bcastRetires, hto.bcast]

/-- The thread moves with no frame open, before and after. -/
theorem thread_silent (h : Channel s k) (hto : s.ThreadTo s' k pc)
    (hwire : s'.wire = s.wire) (hbefore : s.threadOpen k = none)
    (hafter : pc.out?.filter Sending.midFrame = none)
    (hreply : ∀ p frame next, pc = .reply p frame next → SentFrame frame)
    (hout : ∀ o, pc.out? = some o → o.Ok s'.nextCall)
    (hretired : s.cutShort k = true → s.Retired k → s'.Retired k) : Kept s s' k := by
  have hpc : s'.thread k = pc := by rw [hto.thread, Function.update_self]
  have hsilent : s'.threadOpen k = none := (threadOpen_to hto).trans hafter
  refine h.quiet (congrFun hwire k) (fun p frame next e => hreply p frame next (hpc ▸ e))
    (fun o ho => hout o (hpc ▸ ho)) (h.bcastOut_to hto) (Or.inl hsilent) (Or.inl ?_) hretired
  rw [Server.position, Server.position, hsilent, hbefore, bcastOpen_eq hto.bcast]

/-- A `send` of the thread fails: behind a part of its frame, the thread is on its
way to `close`. -/
theorem thread_failed {p : Ptr} {fd : Fd} {out : Sending} {next : After}
    (hrec : Recorded s) (h : Channel s k) (hto : s.ThreadTo s' k pc)
    (hheeds : s.heedsFailure (.thread k .failed) = true)
    (hp : s.thread k = .sending p fd out next) (hwire : s'.wire = s.wire)
    (hnext : next = .loop ∧ pc = .head p ∨ next = .leave ∧ pc = .leave p) :
    Kept s s' k := by
  have hpc : s'.thread k = pc := by rw [hto.thread, Function.update_self]
  have hnone : pc.out? = none := by
    rcases hnext with ⟨_, rfl⟩ | ⟨_, rfl⟩ <;> rfl
  have hreply : ∀ p frame next, pc = .reply p frame next → SentFrame frame := by
    rcases hnext with ⟨_, rfl⟩ | ⟨_, rfl⟩ <;> exact nofun
  have hretired : s.cutShort k = true → s.Retired k → s'.Retired k := by
    refine retired_to hrec hto fun _ ht => ?_
    rw [hp] at ht
    cases ht
  have hbefore : s.threadOpen k = if out.midFrame then some out else none := by
    rw [Server.threadOpen, hp]
    exact Option.filter_some
  by_cases hmid : out.midFrame = true
  · rw [if_pos hmid] at hbefore
    have hapart : s.bcastOpen k = none := by
      apply h.apart.resolve_left
      rw [hbefore]
      exact Option.some_ne_none out
    have hsilent : s'.threadOpen k = none := by
      rw [threadOpen_to hto, hnone, Option.filter_none]
    have hleave : pc = .leave p := by
      rcases hnext with ⟨rfl, _⟩ | ⟨_, e⟩
      · simp only [Server.heedsFailure, hp, hmid, Bool.not_true, Bool.false_eq_true] at hheeds
      · exact e
    refine h.quiet (congrFun hwire k) (fun p frame next e => hreply p frame next (hpc ▸ e))
      (fun o ho => ?_) (h.bcastOut_to hto) (Or.inl hsilent) (Or.inr ⟨?_, ?_⟩) hretired
    · rw [hpc, hnone] at ho
      cases ho
    · rw [Server.position, hsilent, bcastOpen_eq hto.bcast, hapart]
      rfl
    · apply Server.Retired.byThread
      rw [hpc, hleave]
      rfl
  · rw [if_neg hmid] at hbefore
    refine h.thread_silent hto hwire hbefore ?_ hreply (fun o ho => ?_) hretired
    · rw [hnone, Option.filter_none]
    · rw [hnone] at ho
      cases ho

/-- The thread of the connection moves. -/
theorem thread_own (hrec : Recorded s) (h : Channel s k)
    (hscope : s.oneByOne (.thread k c) = true) (hcond : s.closesAfterFailure (.thread k c))
    (hto : s.ThreadTo s' k pc) (hevent : s.ThreadEvent s' k pc c) : Kept s s' k := by
  obtain ⟨hheeds, hretire, hown⟩ := hcond
  have hpc : s'.thread k = pc := by rw [hto.thread, Function.update_self]
  have hbcastOpen := bcastOpen_eq hto.bcast k
  cases hevent with
  | quiet hwire hout hnone hreply hleaves =>
    refine h.thread_silent hto hwire ?_ ?_ hreply (fun o ho => ?_)
      (retired_to hrec hto fun hcut ht => ?_)
    · rw [Server.threadOpen, hout, Option.filter_none]
    · rw [hnone, Option.filter_none]
    · rw [hnone] at ho
      cases ho
    · rcases hleaves ht with hl | ⟨p, hp, rfl, hstore⟩
      · exact .byThread (hpc ▸ hl)
      · simp only [Server.usesOwn, hp, hcut, Bool.not_true, Bool.false_or,
          decide_eq_true_eq] at hown
        exact .closed (hrec.closed_of_named hown hstore)
  | begins hp hwire hsending hcalls =>
    subst hsending
    refine h.thread_silent hto hwire ?_ rfl (fun p frame next e => ?_) (fun o ho => ?_)
      (retired_to hrec hto fun _ ht => ?_)
    · rw [Server.threadOpen, hp]
      rfl
    · cases e
    · cases ho
      rw [hcalls]
      exact beginFrame_ok (h.reply _ _ _ hp)
    · rw [hp] at ht
      cases ht
  | http hp hfd hwire hnone hreply =>
    have hsilent : s'.threadOpen k = none := by
      rw [threadOpen_to hto, hnone, Option.filter_none]
    simp only [Server.usesOwn, hp, decide_eq_true_eq] at hown
    obtain rfl := Option.some.inj (hown.symm.trans hfd)
    have hapart := bcastOpen_of_not_calls (Bool.not_eq_true' _ ▸ hscope)
    refine response (h.thread_sends hretire hfd (hp ▸ rfl))
      (by rw [hwire, Function.update_self]) ?_
      (fun p frame next e => hreply p frame next (hpc ▸ e)) (fun o ho => ?_)
      (h.bcastOut_to hto) (Or.inl hsilent)
    · rw [Server.position, hsilent, hbcastOpen, hapart]
      rfl
    · rw [hpc, hnone] at ho
      cases ho
  | @frame p fd out next w j hp hw hfd hwire _ hadv hreply =>
    simp only [Server.usesOwn, hp, decide_eq_true_eq] at hown
    obtain rfl := Option.some.inj (hown.symm.trans hfd)
    have hok := h.threadOut out (hp ▸ rfl)
    have hapart := bcastOpen_of_not_calls (Bool.not_eq_true' _ ▸ hscope)
    have hbefore : s.threadOpen k = if out.midFrame then some out else none := by
      rw [Server.threadOpen, hp]
      exact Option.filter_some
    refine h.send (h.thread_sends hretire hfd (hp ▸ rfl)) hok hw
      (by rw [hwire, Function.update_self]) ?_ ?_
      (fun p frame next e => absurd (hpc ▸ e) (hreply p frame next)) (fun o ho => ?_)
      (h.bcastOut_to hto) (Or.inr (hbcastOpen.trans hapart))
    · rw [Server.position, hapart, Option.or_none, hbefore, hok.position_eq]
      split <;> rfl
    · rw [Server.position, hbcastOpen, hapart, Option.or_none, threadOpen_to hto, hadv]
    · have hspec := hok.advance (w := w)
      rw [← hadv, ← hpc, ho] at hspec
      exact hspec.1.mono hto.calls
  | failed hp hwire hnext => exact thread_failed hrec h hto hheeds hp hwire hnext

end

theorem thread_step {c : Choice} {j : ConnId} (hrec : Recorded s)
    (h : ∀ k, Channel s k) (hscope : s.oneByOne (.thread j c) = true)
    (hcond : s.closesAfterFailure (.thread j c)) (hstep : s.threadStep j c = some s') (k) :
    Kept s s' k := by
  obtain ⟨pc, hto, hevent⟩ := Server.threadStep_event hstep
  by_cases hkj : k = j
  · subst hkj
    exact (h k).thread_own hrec hscope hcond hto hevent
  · have hthread : s'.thread k = s.thread k := by
      rw [hto.thread, Function.update_of_ne hkj]
    refine (h k).other hto.calls ?_ (Or.inl hthread) hto.bcast
      fun hk => hk.keeps (hto.store.keeps hrec.points)
    have hown := hcond.2.2
    cases hevent with
    | quiet hwire | begins _ hwire | failed _ hwire => rw [hwire]
    | http hp hfd hwire | frame hp _ hfd hwire =>
      simp only [Server.usesOwn, hp, decide_eq_true_eq] at hown
      obtain rfl := Option.some.inj (hown.symm.trans hfd)
      rw [hwire, Function.update_of_ne hkj]

/-! ### Broadcasts -/

/-- What a broadcast sends goes where no frame was cut short. -/
theorem bcast_sends {msg : Bytes} {seen rest : List Ptr} {p : Ptr} {fd : Fd} {out : Sending}
    {w : Nat} (h : Channel s p.conn) (hb : s.bcast = some ⟨msg, .sending seen p rest fd out⟩)
    (hretire : s.letsRetire (.bcast (.sent w)) = true)
    (hfd : s.store.fds fd = some p.conn) : s.cutShort p.conn = false := by
  simp only [Server.letsRetire, hb, Bool.not_eq_true', Bool.and_eq_false_iff] at hretire
  rcases hretire with hcut | hleaves
  · exact hcut
  · by_contra hcut
    rw [Bool.not_eq_false] at hcut
    cases h.retired_of_cutShort hcut with
    | closed hc => exact hc.2 fd hfd
    | byBroadcast hr =>
      simp only [Server.bcastRetires, hb, Option.bind_some, BcastPc.retires,
        decide_eq_true_eq] at hr
      cases hr
    | byThread ht => exact Bool.noConfusion (hleaves.symm.trans ht)

/-- A frame of a broadcast is open at most on the connection it sends on. -/
theorem bcastOpen_sending {msg : Bytes} {seen rest : List Ptr} {p : Ptr} {fd : Fd}
    {out : Sending} (hb : s.bcast = some ⟨msg, .sending seen p rest fd out⟩)
    (hk : k = p.conn) : s.bcastOpen k = if out.midFrame then some out else none := by
  rw [Server.bcastOpen, hb]
  exact (if_pos (congrArg some hk.symm)).trans Option.filter_some

theorem bcastOpen_elsewhere {msg : Bytes} {seen rest : List Ptr} {p : Ptr} {fd : Fd}
    {out : Sending} (hb : s.bcast = some ⟨msg, .sending seen p rest fd out⟩)
    (hk : k ≠ p.conn) : s.bcastOpen k = none := by
  rw [Server.bcastOpen, hb]
  exact if_neg fun e => hk (Option.some.inj e).symm

theorem threadOpen_of_not_calls (h : (s.thread k).calls = false) : s.threadOpen k = none := by
  unfold Server.threadOpen
  cases hp : s.thread k with
  | sending p fd out next =>
    rw [hp] at h
    cases h
  | _ => rfl

theorem retired_of_bcast (hrec : Recorded s) (hto : s.BcastTo s')
    (hretires : s.cutShort k = true → s.bcastRetires k = true → s'.Retired k)
    (hcut : s.cutShort k = true) (hr : s.Retired k) : s'.Retired k :=
  hr.move (fun hk => hk.keeps (hto.store.keeps hrec.points)) (hretires hcut)
    fun ht => .byThread (hto.thread ▸ ht)

/-- The broadcast moves with no frame open on the connection, before and after. -/
theorem bcast_silent (h : Channel s k) (hto : s.BcastTo s') (hwire : s'.wire k = s.wire k)
    (hbefore : s.bcastOpen k = none) (hafter : s'.bcastOpen k = none)
    (hout : ∀ b o, s'.bcast = some b → b.pc.target = some k → b.pc.out? = some o →
      o.Ok s'.nextCall)
    (hretired : s.cutShort k = true → s.Retired k → s'.Retired k) : Kept s s' k := by
  have hthread : s'.thread k = s.thread k := congrFun hto.thread k
  refine h.quiet hwire (fun p frame next e => h.reply p frame next (hthread ▸ e))
    (fun o ho => (h.threadOut o (hthread ▸ ho)).mono hto.calls) hout (Or.inr hafter)
    (Or.inl ?_) hretired
  rw [Server.position, Server.position, hafter, hbefore, threadOpen_eq hthread]

/-- A broadcast sends a piece of its frame on the connection. -/
theorem bcast_frame {msg : Bytes} {seen rest : List Ptr} {p : Ptr} {fd : Fd} {out : Sending}
    {w : Nat} {b : Broadcast} (h : Channel s p.conn) (hto : s.BcastTo s')
    (hb : s.bcast = some ⟨msg, .sending seen p rest fd out⟩)
    (hscope : s.oneByOne (.bcast (.sent w)) = true)
    (hretire : s.letsRetire (.bcast (.sent w)) = true)
    (hw : ¬ (w = 0 ∨ out.buf.length < w)) (hfd : s.store.fds fd = some p.conn)
    (hwire : s'.wire p.conn = s.wire p.conn ++ [.frame out.call (out.buf.take w)])
    (hnext : s'.bcast = some b) (hadv : b.pc.out? = out.advance w)
    (htarget : b.pc.target = some p.conn ∨ b.pc.out? = none) : Kept s s' p.conn := by
  have hthread : s'.thread p.conn = s.thread p.conn := congrFun hto.thread p.conn
  simp only [Server.oneByOne, hb, Bool.not_eq_true'] at hscope
  have hapart := threadOpen_of_not_calls hscope
  have hapart' : s'.threadOpen p.conn = none := (threadOpen_eq hthread).trans hapart
  have hok := h.bcastOut _ out hb rfl rfl
  have hspec := hok.advance (w := w)
  have hafter : s'.bcastOpen p.conn = (out.advance w).filter Sending.midFrame := by
    rw [Server.bcastOpen, hnext]
    dsimp only
    rw [hadv]
    rcases htarget with e | e
    · rw [if_pos e]
    · rw [← hadv, e]
      exact ite_self _
  refine h.send (h.bcast_sends hb hretire hfd) hok hw hwire ?_ ?_
    (fun p frame next e => h.reply p frame next (hthread ▸ e))
    (fun o ho => (h.threadOut o (hthread ▸ ho)).mono hto.calls) (fun b' o hb' _ ho => ?_)
    (Or.inl hapart')
  · rw [Server.position, hapart, Option.none_or, bcastOpen_sending hb rfl, hok.position_eq]
    split <;> rfl
  · rw [Server.position, hapart', Option.none_or, hafter]
  · rw [hnext] at hb'
    cases hb'
    rw [← hadv, ho] at hspec
    exact hspec.1.mono hto.calls

/-- The `send` of a broadcast fails: behind a part of its frame, the broadcast is on
its way to `close`. -/
theorem bcast_failed {msg : Bytes} {seen rest : List Ptr} {p : Ptr} {fd : Fd}
    {out : Sending} (h : Channel s k) (hto : s.BcastTo s')
    (hb : s.bcast = some ⟨msg, .sending seen p rest fd out⟩) (hwire : s'.wire = s.wire)
    (hnext : s'.bcast = some ⟨msg, .mark seen p rest⟩)
    (hretired : s.cutShort k = true → s.Retired k → s'.Retired k) : Kept s s' k := by
  have hthread : s'.thread k = s.thread k := congrFun hto.thread k
  have hafter : s'.bcastOpen k = none := Apart.bcastOpen_of_out hnext rfl k
  have hout : ∀ b o, s'.bcast = some b → b.pc.target = some k → b.pc.out? = some o →
      o.Ok s'.nextCall := by
    intro b o hb' _ ho
    rw [hnext] at hb'
    cases hb'
    cases ho
  by_cases hopen : s.bcastOpen k = none
  · exact h.bcast_silent hto (congrFun hwire k) hopen hafter hout hretired
  · have hk : k = p.conn := by
      by_contra hk
      exact hopen (bcastOpen_elsewhere hb hk)
    refine h.quiet (congrFun hwire k) (fun p frame next e => h.reply p frame next (hthread ▸ e))
      (fun o ho => (h.threadOut o (hthread ▸ ho)).mono hto.calls) hout (Or.inr hafter)
      (Or.inr ⟨?_, .byBroadcast ?_⟩) hretired
    · rw [Server.position, hafter, threadOpen_eq hthread, h.apart.resolve_right hopen]
      rfl
    · rw [Server.bcastRetires, hnext, hk]
      exact decide_eq_true rfl

theorem bcast_step {c : Choice} (hrec : Recorded s) (h : Channel s k)
    (hscope : s.oneByOne (.bcast c) = true) (hcond : s.closesAfterFailure (.bcast c))
    (hstep : s.bcastStep c = some s') : Kept s s' k := by
  obtain ⟨hto, b, hb, hevent⟩ := Server.bcastStep_event hstep
  obtain ⟨_, hretire, hown⟩ := hcond
  cases hevent with
  | quiet hwire hout hnext hretires =>
    have hafter : s'.bcastOpen k = none := by
      unfold Server.bcastOpen
      split
      next b' hb' => rw [hnext b' hb', Option.filter_none, ite_self]
      next => rfl
    refine h.bcast_silent hto (congrFun hwire k) (Apart.bcastOpen_of_out hb hout k) hafter
      (fun b' o hb' _ ho => ?_) (retired_of_bcast hrec hto fun hcut hr => ?_)
    · rw [hnext b' hb'] at ho
      cases ho
    · rw [Server.bcastRetires, hb, Option.bind_some] at hr
      rcases hretires k (of_decide_eq_true hr) with
        ⟨b', hb', hr'⟩ | ⟨seen, p, rest, hpc, rfl, rfl, hstore⟩
      · apply Server.Retired.byBroadcast
        rw [Server.bcastRetires, hb', Option.bind_some]
        exact decide_eq_true hr'
      · obtain ⟨msg, pc⟩ := b
        subst hpc
        simp only [Server.usesOwn, hb, hcut, Bool.not_true, Bool.false_or,
          decide_eq_true_eq] at hown
        exact .closed (hrec.closed_of_named hown hstore)
  | begins hpc hwire hnext hcalls =>
    have hafter : s'.bcastOpen k = none := by
      rw [Server.bcastOpen, hnext]
      exact ite_self _
    refine h.bcast_silent hto (congrFun hwire k) (Apart.bcastOpen_of_out hb (hpc ▸ rfl) k)
      hafter (fun b' o hb' _ ho => ?_) (retired_of_bcast hrec hto fun _ hr => ?_)
    · rw [hnext] at hb'
      cases hb'
      cases ho
      rw [hcalls]
      exact beginFrame_ok (Or.inl ⟨b.msg, rfl⟩)
    · rw [Server.bcastRetires, hb, Option.bind_some, hpc] at hr
      cases of_decide_eq_true hr
  | @frame seen rest p fd out w j b' hpc hw hfd hwire _ hnext hadv htarget =>
    obtain ⟨msg, pc⟩ := b
    subst hpc
    simp only [Server.usesOwn, hb, decide_eq_true_eq] at hown
    obtain rfl := Option.some.inj (hown.symm.trans hfd)
    by_cases hk : k = p.conn
    · subst hk
      exact h.bcast_frame hto hb hscope hretire hw hfd (hwire ▸ Function.update_self _ _ _)
        hnext hadv htarget
    · have hafter : s'.bcastOpen k = none := by
        rw [Server.bcastOpen, hnext]
        dsimp only
        rcases htarget with e | e
        · rw [e, if_neg fun e => hk (Option.some.inj e).symm]
        · rw [e]
          exact ite_self _
      refine h.bcast_silent hto (by rw [hwire, Function.update_of_ne hk])
        (bcastOpen_elsewhere hb hk) hafter (fun b'' o hb'' ht ho => ?_)
        (retired_of_bcast hrec hto fun _ hr => ?_)
      · rw [hnext] at hb''
        cases hb''
        rcases htarget with e | e
        · exact absurd (Option.some.inj (ht.symm.trans e)) hk
        · rw [e] at ho
          cases ho
      · rw [Server.bcastRetires, hb] at hr
        cases of_decide_eq_true hr
  | failed hpc hwire hnext =>
    obtain ⟨msg, pc⟩ := b
    subst hpc
    refine h.bcast_failed hto hb hwire hnext (retired_of_bcast hrec hto fun _ hr => ?_)
    rw [Server.bcastRetires, hb] at hr
    cases of_decide_eq_true hr

/-! ### Every step -/

theorem accept_step {c : Choice} (hrec : Recorded s) (h : Channel s k)
    (hstep : s.acceptStep c = some s') : Kept s s' k := by
  obtain ⟨hwire, hbcast, hcalls, hthread⟩ := Server.acceptStep_frame hstep
  refine h.other (Nat.le_of_eq hcalls.symm) (congrFun hwire k) ?_ hbcast
    (hrec.closed_step (a := .accept c) hstep)
  rcases hthread with e | ⟨p, n, hp, e⟩
  · exact Or.inl (congrFun e k)
  · rw [e, Function.update_apply]
    by_cases hk : k = p.conn
    · rw [if_pos hk]
      exact Or.inr ⟨hk ▸ (hrec.held p.conn (hp ▸ rfl)).2, p, rfl⟩
    · rw [if_neg hk]
      exact Or.inl rfl

theorem stop_step {c : Choice} (hrec : Recorded s) (h : Channel s k)
    (hstep : s.stopStep c = some s') : Kept s s' k := by
  obtain ⟨hwire, hbcast, hcalls, hthread⟩ := Server.stopStep_frame hstep
  exact h.other (Nat.le_of_eq hcalls.symm) (congrFun hwire k) (Or.inl (congrFun hthread k))
    hbcast (hrec.closed_step (a := .stop c) hstep)

/-- A broadcast begins with a visit. -/
theorem bcastBegin {msg : Bytes} (h : Channel s k) (hstep : s.bcastBegin msg = some s') :
    Kept s s' k := by
  obtain ⟨hnone, rfl⟩ := Server.bcastBegin_eq_some hstep
  have hbefore : s.bcastOpen k = none := by rw [Server.bcastOpen, hnone]
  have hsilent : ∀ b : Broadcast, b.pc = .visit [] s.store.clients →
      Server.bcastOpen { s with bcast := some b } k = none := fun b hb =>
    Apart.bcastOpen_of_out rfl (hb ▸ rfl) k
  refine h.quiet rfl h.reply h.threadOut (fun b o hb _ ho => ?_) (Or.inr (hsilent _ rfl))
    (Or.inl ?_) fun _ hr => hr.move id (fun hb => ?_) fun ht => .byThread ht
  · cases hb
    cases ho
  · rw [Server.position, Server.position, hsilent _ rfl, hbefore]
    rfl
  · rw [Server.bcastRetires, hnone] at hb
    cases of_decide_eq_true hb

theorem step {a : Action} (hrec : Recorded s) (h : ∀ k, Channel s k)
    (hscope : s.oneByOne a = true) (hcond : s.closesAfterFailure a)
    (hstep : s.step a = some s') (k : ConnId) : Kept s s' k := by
  cases a with
  | accept c => exact (h k).accept_step hrec hstep
  | thread j c => exact thread_step hrec h hscope hcond hstep k
  | bcastBegin msg => exact (h k).bcastBegin hstep
  | bcast c => exact (h k).bcast_step hrec hscope hcond hstep
  | stop c => exact (h k).stop_step hrec hstep

/-- The step on which a send fails part-way leaves its frame cut short. -/
theorem cutShort_of_failsPartWay {a : Action} (h : Channel s k)
    (hfails : s.failsPartWay k a = true) (hstep : s.step a = some s') :
    s'.wire k = s.wire k ∧ s'.cutShort k = true := by
  -- The reader stands in the frame; the step leaves it there, with no sender.
  have hcut : ∀ part, s.position k = some part → s'.wire k = s.wire k →
      s'.position k = none → s'.wire k = s.wire k ∧ s'.cutShort k = true := by
    intro part hpart hwire hnone
    refine ⟨hwire, Server.cutShort_iff.mpr ⟨hnone, part, ?_⟩⟩
    obtain ⟨o, hread, rfl | ⟨hpos, _⟩⟩ := h.reader
    · rw [hwire, hread, hpart]
    · rw [hpart] at hpos
      cases hpos
  unfold Server.failsPartWay at hfails
  split at hfails
  next j =>
    obtain ⟨hj, hopen⟩ := Bool.and_eq_true_iff.mp hfails
    obtain rfl := of_decide_eq_true hj
    obtain ⟨o, ho⟩ := Option.isSome_iff_exists.mp hopen
    have hnone : s.bcastOpen j = none := h.apart.resolve_left (ho ▸ nofun)
    have hpart : s.position j = some (o.call, o.sent) := by
      rw [Server.position, ho]
      rfl
    obtain ⟨pc, hto, hevent⟩ := Server.threadStep_event hstep
    cases hevent with
    | quiet _ hout =>
      rw [Server.threadOpen, hout] at ho
      cases ho
    | failed hp hwire hnext =>
      refine hcut _ hpart (congrFun hwire j) ?_
      rw [Server.position, bcastOpen_eq hto.bcast, hnone, Server.threadOpen, hto.thread,
        Function.update_self]
      rcases hnext with ⟨_, rfl⟩ | ⟨_, rfl⟩ <;> rfl
  next =>
    obtain ⟨o, ho⟩ := Option.isSome_iff_exists.mp hfails
    have hnone : s.threadOpen k = none := h.apart.resolve_right (ho ▸ nofun)
    have hpart : s.position k = some (o.call, o.sent) := by
      rw [Server.position, hnone, ho]
      rfl
    obtain ⟨hto, b, hb, hevent⟩ := Server.bcastStep_event hstep
    cases hevent with
    | quiet _ hout =>
      rw [Apart.bcastOpen_of_out hb hout] at ho
      cases ho
    | failed _ hwire hnext =>
      refine hcut _ hpart (congrFun hwire k) ?_
      rw [Server.position, threadOpen_eq (congrFun hto.thread k), hnone,
        Apart.bcastOpen_of_out hnext rfl k]
      rfl
  next => cases hfails

end Channel

/-! ## Runs -/

/-- The steps of the setting that meet the condition. -/
def Server.sendsSafely (s : Server) (a : Action) : Prop :=
  s.oneByOne a = true ∧ s.closesAfterFailure a

/-- The invariant of a run that closes after a failure, for all connections together. -/
structure Sealed (s : Server) : Prop where
  recorded : Recorded s
  channel : ∀ k, Channel s k

theorem sealed_of_run {as : List Action} {s : Server}
    (hg : Guarded Server.step Server.sendsSafely Server.init as)
    (h : exec Server.step Server.init as = some s) : Sealed s :=
  exec_invariant
    (fun _ _ _ hI hguard hstep => ⟨hI.recorded.step hstep, fun k =>
      (Channel.step hI.recorded hI.channel hguard.1 hguard.2 hstep k).1⟩)
    ⟨Recorded.init, Channel.init⟩ hg h

/-- Where a frame was cut short, nothing is added in the rest of the run. -/
theorem Sealed.silent {as : List Action} {s s' : Server} {k : ConnId} (h : Sealed s)
    (hcut : s.cutShort k = true) (hg : Guarded Server.step Server.sendsSafely s as)
    (hexec : exec Server.step s as = some s') : s'.wire k = s.wire k := by
  have hall := exec_invariant
    (I := fun m => Sealed m ∧ m.wire k = s.wire k ∧ m.cutShort k = true)
    (fun m a m' hI hguard hstep => by
      obtain ⟨hsealed, hwire, hcut⟩ := hI
      have hkept := Channel.step hsealed.recorded hsealed.channel hguard.1 hguard.2 hstep
      obtain ⟨hwire', hcut'⟩ := (hkept k).2 hcut
      exact ⟨⟨hsealed.recorded.step hstep, fun j => (hkept j).1⟩, hwire'.trans hwire, hcut'⟩)
    ⟨h, rfl, hcut⟩ hg hexec
  exact hall.2.1

theorem failStop_of_guarded {as : List Action} {s : Server}
    (hg : Guarded Server.step Server.sendsSafely Server.init as)
    (h : exec Server.step Server.init as = some s) : FailStop as s := by
  refine ⟨fun pre a post m k happ hm hfails => ?_,
    fun k => ((sealed_of_run hg h).channel k).framesIntact⟩
  subst happ
  rw [exec_append, hm, Option.bind_some] at h
  obtain ⟨m', hstep, hrest⟩ := exec_cons h
  have hsealed := sealed_of_run hg.left hm
  have hpost : Guarded Server.step Server.sendsSafely m (a :: post) := hg.right hm
  obtain ⟨hwire, hcut⟩ := (hsealed.channel k).cutShort_of_failsPartWay hfails hstep
  have hkept := Channel.step hsealed.recorded hsealed.channel hpost.1.1 hpost.1.2 hstep
  have hsealed' : Sealed m' := ⟨hsealed.recorded.step hstep, fun j => (hkept j).1⟩
  exact (hsealed'.silent hcut (hpost.2 m' hstep) hrest).trans hwire

/-- **After a failed send the connection is silent.** The runs are those in which the calls that
send on a connection do not overlap (`hscope`), whatever the `send`s answer. The condition
`hcond` is on every step and the state before it: no `send` whose result `client_thread` ignores
fails part-way, nothing is sent on a connection while the party whose `send` failed is still on
its way to `close`, and no descriptor or record is used for another connection than its own. The
conclusion is for every state that such a run passes through: what is on the wire of a
connection is what was there when a `send` failed part-way on it, and since the response of the
handshake a client has been sent whole frames and then at most a part of one. -/
theorem fail_stop_of_guarded (as : List Action)
    (hscope : Guarded Server.step (fun s a => s.oneByOne a = true) Server.init as)
    (hcond : Guarded Server.step Server.closesAfterFailure Server.init as)
    (pre post : List Action) (s : Server) (happ : as = pre ++ post)
    (h : exec Server.step Server.init pre = some s) : FailStop pre s := by
  subst happ
  exact failStop_of_guarded (hscope.and hcond).left h

/-- The status frame goes out, a broadcast fails behind its header and removes the
client, and the thread, which finds `alive` cleared, ends after it. -/
def broadcastFailsPartWay : List Action :=
  handshakeThenBroadcast.take 9 ++
    [.thread 0 .go, .thread 0 (.sent 2), .thread 0 (.sent 35),
     .bcastBegin (ascii "\x7b\x7d"), .bcast .go, .bcast .go, .bcast (.sent 2), .bcast .failed,
     .bcast .go, .bcast .go, .bcast .go, .bcast .go, .bcast .go,
     .thread 0 .go, .thread 0 .go, .thread 0 .go, .thread 0 .go, .thread 0 .go]

theorem failed_broadcast_fail_stop :
    ∃ s, exec Server.step Server.init broadcastFailsPartWay = some s ∧
      FailStop broadcastFailsPartWay s ∧ (framePieces (s.wire 0)).length = 3 := by
  have hrun : (exec Server.step Server.init broadcastFailsPartWay).map
      (fun s => (framePieces (s.wire 0)).length) = some 3 := by decide +kernel
  obtain ⟨s, hs, hend⟩ := Option.map_eq_some_iff.mp hrun
  refine ⟨s, hs, ?_, hend⟩
  exact fail_stop_of_guarded broadcastFailsPartWay (by decide +kernel) (by decide +kernel) _ []
    s (List.append_nil _).symm hs

/-- The status frame fails behind its header, and `client_thread` answers the ping
that comes next. -/
def pongAfterFailedStatus : List Action :=
  handshakeThenBroadcast.take 9 ++
    [.thread 0 .go, .thread 0 (.sent 2), .thread 0 .failed, .thread 0 .go, .thread 0 .go,
     .thread 0 (.frame 9 [] none), .thread 0 .go, .thread 0 (.sent 2)]

/-- The header of the pong stands behind the header of the status frame. -/
theorem pong_after_failed_status :
    ∃ s, Guarded Server.step (fun s a => s.oneByOne a = true) Server.init
        pongAfterFailedStatus ∧
      exec Server.step Server.init pongAfterFailedStatus = some s ∧
      ¬ FailStop pongAfterFailedStatus s := by
  have hrun : (exec Server.step Server.init pongAfterFailedStatus).map
      (fun s => ((framePieces (sinceResponse (s.wire 0))).all fun f => f.2 ≠ [],
        followAll FrameCall.bytes (framePieces (sinceResponse (s.wire 0))))) =
      some (true, none) := by
    decide +kernel
  obtain ⟨s, hs, hend⟩ := Option.map_eq_some_iff.mp hrun
  obtain ⟨hne, hnone⟩ := Prod.mk.inj hend
  refine ⟨s, by decide +kernel, hs, fun h => ?_⟩
  obtain ⟨o, ho⟩ := followAll_of_framed
    (fun f hf => of_decide_eq_true (List.all_eq_true.mp hne f hf)) (h.frames 0).framed
  rw [hnone] at ho
  cases ho

end TelemetryTestbed.WebSocket
