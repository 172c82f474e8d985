import TelemetryTestbed.Laws.WebSocket.Steps

/-!
# Frames on the wire

A connection is a channel that two parties write to, its `client_thread` and a
broadcast, and neither holds a lock that the other takes. The invariant is where
the reader of the channel stands: in the frame that one of them has partly out.
A first byte that goes out while the other party is inside a frame is what
breaks it, so frames stay whole in exactly the runs without such a step
(`frames_intact_iff`).

Both directions are proved over runs. From left to right the first step that breaks the
condition is looked for: it leaves a wire on which a frame begins inside another one. From
right to left the invariant goes along. A run in which a broadcast and a status cross is at
the end.
-/

namespace TelemetryTestbed.WebSocket

open TelemetryTestbed.Lib

/-! ## The invariant -/

/-- Where the reader of a connection stands. -/
def Server.position (s : Server) (k : ConnId) : Option (FrameCall × Bytes) :=
  ((s.threadOpen k).or (s.bcastOpen k)).map fun o => (o.call, o.sent)

/-- The invariant of a run in which the writers stay apart. `distinct` keeps the calls of a
thread and of a broadcast apart on the wire, `apart` says that not both have a frame partly out,
and `reader` that the reader of the wire stands where the one that has one stands. -/
structure Apart (st : ConnId → Stage) (s : Server) : Prop where
  ordered : Ordered st s
  replies : ∀ k p frame next, s.thread k = .reply p frame next → SentFrame frame
  threadOut : ∀ k o, (s.thread k).out? = some o → o.Ok s.nextCall
  bcastOut : ∀ b o, s.bcast = some b → b.pc.out? = some o → o.Ok s.nextCall
  distinct : ∀ k o b o', (s.thread k).out? = some o → s.bcast = some b →
    b.pc.out? = some o' → o.call.id ≠ o'.call.id
  apart : ∀ k, s.threadOpen k = none ∨ s.bcastOpen k = none
  pieces : ∀ k, ∀ f ∈ framePieces (s.wire k),
    f.2 ≠ [] ∧ ∃ frame, SentFrame frame ∧ f.1.bytes = frame.flatten
  reader : ∀ k, followAll FrameCall.bytes (framePieces (s.wire k)) = some (s.position k)

namespace Apart

variable {st st' : ConnId → Stage} {s s' : Server} {k : ConnId}

theorem framesIntact (h : Apart st s) : s.FramesIntact := fun k =>
  ⟨framed_of_followAll (fun f hf => (h.pieces k f hf).1) (h.reader k),
    fun f hf => (h.pieces k f hf).2⟩

theorem bcastOpen_congr (hbcast : s'.bcast = s.bcast) (j : ConnId) :
    s'.bcastOpen j = s.bcastOpen j := by
  unfold Server.bcastOpen
  rw [hbcast]

/-- The channels stand as they did, where nobody has begun or ended a frame. -/
theorem channels_kept (h : Apart st s) (hthreadOpen : ∀ j, s'.threadOpen j = s.threadOpen j)
    (hbcast : s'.bcast = s.bcast)
    (hwires : ∀ j, framePieces (s'.wire j) = framePieces (s.wire j)) :
    (∀ k, s'.threadOpen k = none ∨ s'.bcastOpen k = none) ∧
    (∀ k, ∀ f ∈ framePieces (s'.wire k),
      f.2 ≠ [] ∧ ∃ frame, SentFrame frame ∧ f.1.bytes = frame.flatten) ∧
    ∀ k, followAll FrameCall.bytes (framePieces (s'.wire k)) = some (s'.position k) := by
  have hbcastOpen := bcastOpen_congr hbcast
  refine ⟨fun j => ?_, fun j => ?_, fun j => ?_⟩
  · rw [hthreadOpen, hbcastOpen]
    exact h.apart j
  · rw [hwires]
    exact h.pieces j
  · rw [hwires, Server.position, hthreadOpen, hbcastOpen]
    exact h.reader j

/-- A thread moves and sends no part of a frame. -/
theorem thread_silent {pc : ThreadPc} (h : Apart st s) (hordered : Ordered st' s')
    (hthread : s'.thread = Function.update s.thread k pc)
    (hwires : ∀ j, framePieces (s'.wire j) = framePieces (s.wire j))
    (hbcast : s'.bcast = s.bcast) (hcall : s.nextCall ≤ s'.nextCall)
    (hreply : ∀ p frame next, pc = .reply p frame next → SentFrame frame)
    (hout : ∀ o, pc.out? = some o → o.Ok s'.nextCall ∧ ∀ b o', s.bcast = some b →
      b.pc.out? = some o' → o.call.id ≠ o'.call.id)
    (hopen : pc.out?.filter Sending.midFrame = s.threadOpen k) : Apart st' s' := by
  have hthreadOpen : ∀ j, s'.threadOpen j = s.threadOpen j := by
    intro j
    unfold Server.threadOpen
    rw [hthread, Function.update_apply]
    by_cases hj : j = k
    · rw [if_pos hj, hj]
      exact hopen
    · rw [if_neg hj]
  obtain ⟨hapart, hpieces, hreader⟩ := h.channels_kept hthreadOpen hbcast hwires
  refine ⟨hordered, fun j p frame next hj => ?_, fun j o hj => ?_, fun b o hb ho => ?_,
    fun j o b o' hj hb ho' => ?_, hapart, hpieces, hreader⟩
  · rw [hthread, Function.update_apply] at hj
    split at hj
    · exact hreply p frame next hj
    · exact h.replies j p frame next hj
  · rw [hthread, Function.update_apply] at hj
    split at hj
    · exact (hout o hj).1
    · exact (h.threadOut j o hj).mono hcall
  · rw [hbcast] at hb
    exact (h.bcastOut b o hb ho).mono hcall
  · rw [hbcast] at hb
    rw [hthread, Function.update_apply] at hj
    split at hj
    · exact (hout o hj).2 b o' hb ho'
    · exact h.distinct j o b o' hj hb ho'

/-! Both parties send the same way: where the channel stands with the sender's
own frame, a piece of it goes in. -/

theorem position_of_thread {o : Sending} (h : Apart st s) (ho : (s.thread k).out? = some o)
    (hapart : o.midFrame = true ∨ s.bcastOpen k = none) :
    s.position k = o.position ∧ s.bcastOpen k = none := by
  have hopen : s.threadOpen k = if o.midFrame then some o else none := by
    rw [Server.threadOpen, ho, Option.filter_some]
  have hnone : s.bcastOpen k = none := by
    rcases hapart with hmid | hnone
    · apply (h.apart k).resolve_left
      intro e
      rw [hopen, if_pos hmid] at e
      cases e
    · exact hnone
  refine ⟨?_, hnone⟩
  rw [Server.position, hnone, Option.or_none, hopen, (h.threadOut k o ho).position_eq]
  split <;> rfl

theorem position_of_bcast {o : Sending} {b : Broadcast} (h : Apart st s)
    (hb : s.bcast = some b) (htarget : b.pc.target = some k) (ho : b.pc.out? = some o)
    (hapart : o.midFrame = true ∨ s.threadOpen k = none) :
    s.position k = o.position ∧ s.threadOpen k = none := by
  have hopen : s.bcastOpen k = if o.midFrame then some o else none := by
    simp only [Server.bcastOpen, hb, htarget, if_true, ho, Option.filter_some]
  have hnone : s.threadOpen k = none := by
    rcases hapart with hmid | hnone
    · apply (h.apart k).resolve_right
      intro e
      rw [hopen, if_pos hmid] at e
      cases e
    · exact hnone
  refine ⟨?_, hnone⟩
  rw [Server.position, hnone, Option.none_or, hopen, (h.bcastOut b o hb ho).position_eq]
  split <;> rfl

theorem framePieces_send (wire : List Chunk) (call : FrameCall) (bytes : Bytes) :
    framePieces (wire ++ [.frame call bytes]) = framePieces wire ++ [(call, bytes)] :=
  framePieces_concat wire _

theorem pieces_send {o : Sending} {n w : Nat} (h : Apart st s) (hok : o.Ok n)
    (hw : ¬ (w = 0 ∨ o.buf.length < w)) :
    ∀ f ∈ framePieces (s.wire k ++ [.frame o.call (o.buf.take w)]),
      f.2 ≠ [] ∧ ∃ frame, SentFrame frame ∧ f.1.bytes = frame.flatten := by
  intro f hf
  rw [framePieces_send] at hf
  rcases List.mem_append.mp hf with hf | hf
  · exact h.pieces k f hf
  · rw [List.mem_singleton.mp hf]
    exact ⟨hok.take_ne_nil hw, hok.frame⟩

theorem reader_send {o : Sending} {n w : Nat} (h : Apart st s) (hok : o.Ok n)
    (hw : ¬ (w = 0 ∨ o.buf.length < w)) (hpos : s.position k = o.position) :
    followAll FrameCall.bytes (framePieces (s.wire k ++ [.frame o.call (o.buf.take w)])) =
      some (((o.advance w).filter Sending.midFrame).map fun o => (o.call, o.sent)) := by
  rw [framePieces_send, followAll_concat, h.reader k, Option.bind_some, hpos,
    hok.follow_send hw, hok.advance_position hw]

/-- The channel stands in a frame of another call: a piece put in then is not
part of whole frames. -/
theorem position_of_intact {o o' : Sending} {n w : Nat} (h : Apart st s) (hok : o.Ok n)
    (hw : ¬ (w = 0 ∨ o.buf.length < w)) (hne : o.call.id ≠ o'.call.id)
    (hpos : s.position k = some (o'.call, o'.sent)) :
    ¬ WebSocket.FramesIntact (s.wire k ++ [.frame o.call (o.buf.take w)]) := by
  intro hintact
  obtain ⟨r, hr⟩ := followAll_of_framed (fun f hf => (h.pieces_send hok hw f hf).1)
    hintact.framed
  have hcall : o'.call ≠ o.call := fun e => hne (congrArg FrameCall.id e).symm
  rw [framePieces_send, followAll_concat, h.reader k, Option.bind_some, hpos,
    follow_other hcall] at hr
  cases hr

theorem thread_send {pc : ThreadPc} {o : Sending} {w : Nat} (h : Apart st s)
    (hordered : Ordered st' s') (ho : (s.thread k).out? = some o)
    (hw : ¬ (w = 0 ∨ o.buf.length < w)) (hapart : o.midFrame = true ∨ s.bcastOpen k = none)
    (hthread : s'.thread = Function.update s.thread k pc)
    (hwires : s'.wire =
      Function.update s.wire k (s.wire k ++ [.frame o.call (o.buf.take w)]))
    (hbcast : s'.bcast = s.bcast) (hcall : s'.nextCall = s.nextCall)
    (hreply : ∀ p frame next, pc ≠ .reply p frame next)
    (hout : pc.out? = o.advance w) : Apart st' s' := by
  have hok := h.threadOut k o ho
  obtain ⟨hpos, hnone⟩ := h.position_of_thread ho hapart
  have hthreadOpen : ∀ j, s'.threadOpen j =
      if j = k then (o.advance w).filter Sending.midFrame else s.threadOpen j := by
    intro j
    unfold Server.threadOpen
    rw [hthread, Function.update_apply]
    split
    · rw [hout]
    · rfl
  have hbcastOpen := bcastOpen_congr hbcast
  have hadv : ∀ o', pc.out? = some o' → o'.Ok s.nextCall ∧ o'.call = o.call := by
    intro o' ho'
    have hspec := hok.advance (w := w)
    rw [← hout, ho'] at hspec
    exact ⟨hspec.1, hspec.2.1⟩
  refine ⟨hordered, fun j p frame next hj => ?_, fun j o' hj => ?_, fun b o' hb ho' => ?_,
    fun j o' b o'' hj hb ho'' => ?_, fun j => ?_, fun j => ?_, fun j => ?_⟩
  · rw [hthread, Function.update_apply] at hj
    split at hj
    · exact absurd hj (hreply p frame next)
    · exact h.replies j p frame next hj
  · rw [hcall]
    rw [hthread, Function.update_apply] at hj
    split at hj
    · exact (hadv o' hj).1
    · exact h.threadOut j o' hj
  · rw [hcall]
    rw [hbcast] at hb
    exact h.bcastOut b o' hb ho'
  · rw [hbcast] at hb
    rw [hthread, Function.update_apply] at hj
    split at hj
    · rw [(hadv o' hj).2]
      exact h.distinct k o b o'' ho hb ho''
    · exact h.distinct j o' b o'' hj hb ho''
  · rw [hbcastOpen]
    by_cases hj : j = k
    · exact Or.inr (hj ▸ hnone)
    · rw [hthreadOpen, if_neg hj]
      exact h.apart j
  · rw [hwires, Function.update_apply]
    split
    · exact h.pieces_send hok hw
    · exact h.pieces j
  · rw [hwires, Function.update_apply, Server.position, hthreadOpen, hbcastOpen]
    by_cases hj : j = k
    · rw [if_pos hj, if_pos hj, hj, hnone, Option.or_none]
      exact h.reader_send hok hw hpos
    · rw [if_neg hj, if_neg hj]
      exact h.reader j

/-- A broadcast moves and sends nothing. -/
theorem bcast_silent {b' : Option Broadcast} (h : Apart st s) (hordered : Ordered st' s')
    (hthread : s'.thread = s.thread) (hwires : s'.wire = s.wire) (hbcast : s'.bcast = b')
    (hcall : s.nextCall ≤ s'.nextCall)
    (hout : ∀ b o, b' = some b → b.pc.out? = some o → o.Ok s'.nextCall ∧
      s.nextCall ≤ o.call.id ∧ o.midFrame = false)
    (hopen : ∀ j, s.bcastOpen j = none) : Apart st' s' := by
  have hthreadOpen : ∀ j, s'.threadOpen j = s.threadOpen j := by
    intro j
    unfold Server.threadOpen
    rw [hthread]
  have hbcastOpen : ∀ j, s'.bcastOpen j = none := by
    intro j
    unfold Server.bcastOpen
    rw [hbcast]
    cases b' with
    | none => rfl
    | some b =>
      dsimp only
      split
      · cases ho : b.pc.out? with
        | none => rfl
        | some o => rw [Option.filter_some, (hout b o rfl ho).2.2]; rfl
      · rfl
  refine ⟨hordered, fun j p frame next hj => ?_, fun j o hj => ?_, fun b o hb ho => ?_,
    fun j o b o' hj hb ho' => ?_, fun j => ?_, fun j => ?_, fun j => ?_⟩
  · rw [hthread] at hj
    exact h.replies j p frame next hj
  · rw [hthread] at hj
    exact (h.threadOut j o hj).mono hcall
  · rw [hbcast] at hb
    exact (hout b o hb ho).1
  · rw [hthread] at hj
    rw [hbcast] at hb
    have hlt := (h.threadOut j o hj).id
    have hle := (hout b o' hb ho').2.1
    omega
  · exact Or.inr (hbcastOpen j)
  · rw [hwires]
    exact h.pieces j
  · rw [hwires, Server.position, hthreadOpen, hbcastOpen, ← hopen j]
    exact h.reader j

theorem bcast_send {b b' : Broadcast} {o : Sending} {w : Nat} (h : Apart st s)
    (hordered : Ordered st' s') (hb : s.bcast = some b) (htarget : b.pc.target = some k)
    (ho : b.pc.out? = some o) (hw : ¬ (w = 0 ∨ o.buf.length < w))
    (hapart : o.midFrame = true ∨ s.threadOpen k = none) (hthread : s'.thread = s.thread)
    (hwires : s'.wire =
      Function.update s.wire k (s.wire k ++ [.frame o.call (o.buf.take w)]))
    (hbcast : s'.bcast = some b') (hcall : s'.nextCall = s.nextCall)
    (htarget' : b'.pc.target = some k ∨ b'.pc.out? = none)
    (hout : b'.pc.out? = o.advance w) : Apart st' s' := by
  have hok := h.bcastOut b o hb ho
  obtain ⟨hpos, hnone⟩ := h.position_of_bcast hb htarget ho hapart
  have hthreadOpen : ∀ j, s'.threadOpen j = s.threadOpen j := by
    intro j
    unfold Server.threadOpen
    rw [hthread]
  have hbcastOpen : s'.bcastOpen k = (o.advance w).filter Sending.midFrame := by
    unfold Server.bcastOpen
    rw [hbcast]
    dsimp only
    rw [hout]
    rcases htarget' with e | e
    · rw [if_pos e]
    · rw [hout] at e
      rw [e]
      split <;> rfl
  have hbcastOther : ∀ j, j ≠ k → s'.bcastOpen j = none ∧ s.bcastOpen j = none := by
    intro j hj
    simp only [Server.bcastOpen, hbcast, hb, htarget, Option.some.injEq]
    refine ⟨?_, if_neg fun e => hj e.symm⟩
    rcases htarget' with e | e
    · rw [e, if_neg fun e => hj (Option.some.inj e).symm]
    · rw [e]
      split <;> rfl
  have hadv : ∀ o', b'.pc.out? = some o' → o'.Ok s.nextCall ∧ o'.call = o.call := by
    intro o' ho'
    have hspec := hok.advance (w := w)
    rw [← hout, ho'] at hspec
    exact ⟨hspec.1, hspec.2.1⟩
  refine ⟨hordered, fun j p frame next hj => ?_, fun j o' hj => ?_, fun c o' hc ho' => ?_,
    fun j o' c o'' hj hc ho'' => ?_, fun j => ?_, fun j => ?_, fun j => ?_⟩
  · rw [hthread] at hj
    exact h.replies j p frame next hj
  · rw [hthread] at hj
    rw [hcall]
    exact h.threadOut j o' hj
  · rw [hbcast] at hc
    cases hc
    rw [hcall]
    exact (hadv o' ho').1
  · rw [hthread] at hj
    rw [hbcast] at hc
    cases hc
    rw [(hadv o'' ho'').2]
    exact h.distinct j o' b o hj hb ho
  · rw [hthreadOpen]
    by_cases hj : j = k
    · exact Or.inl (hj ▸ hnone)
    · exact Or.inr (hbcastOther j hj).1
  · rw [hwires, Function.update_apply]
    split
    · exact h.pieces_send hok hw
    · exact h.pieces j
  · rw [hwires, Function.update_apply, Server.position, hthreadOpen]
    by_cases hj : j = k
    · rw [if_pos hj, hj, hnone, Option.none_or, hbcastOpen]
      exact h.reader_send hok hw hpos
    · rw [if_neg hj, (hbcastOther j hj).1, ← (hbcastOther j hj).2]
      exact h.reader j

theorem thread_step {c : Choice} (h : Apart st s) (hordered : Ordered st' s')
    (hsucceed : s.sendsSucceed (.thread k c) = true)
    (hstep : s.threadStep k c = some s') (hapart : s.sendsApart (.thread k c) = true) :
    Apart st' s' := by
  have hat := h.ordered.owned.threads k
  obtain ⟨pc, hto, hevent⟩ := Server.threadStep_event hstep
  cases hevent with
  | quiet hwire hout hpc hreply =>
    refine h.thread_silent hordered hto.thread (fun j => by rw [hwire]) hto.bcast hto.calls
      hreply (fun o ho => ?_) ?_
    · rw [hpc] at ho
      cases ho
    · rw [Server.threadOpen, hpc, hout]
  | @begins p fd frame next hp hwire hpc hcalls =>
    subst hpc
    have hout : (s.beginFrame frame).Ok s'.nextCall := by
      rw [hcalls]
      exact beginFrame_ok (h.replies k p frame next hp)
    refine h.thread_silent hordered hto.thread (fun j => by rw [hwire]) hto.bcast hto.calls
      nofun (fun o ho => ?_) ?_
    · cases ho
      exact ⟨hout, fun b o' hb ho' => Nat.ne_of_gt (h.bcastOut b o' hb ho').id⟩
    · rw [Server.threadOpen, hp]
      rfl
  | @http p fd http rest w j hp hfd hwire hpc hreply =>
    refine h.thread_silent hordered hto.thread (fun i => ?_) hto.bcast hto.calls hreply
      (fun o ho => ?_) ?_
    · rw [hwire, Function.update_apply]
      split
      next e =>
        rw [framePieces_concat, e]
        exact List.append_nil _
      next => rfl
    · rw [hpc] at ho
      cases ho
    · rw [Server.threadOpen, hpc, hp]
      rfl
  | @frame p fd out next w j hp hw hfd hwire hcalls hadv hreply =>
    have hcase : out.midFrame = true ∨ s.bcastOpen k = none := by
      simpa only [Server.sendsApart, hp, Bool.or_eq_true, Option.isNone_iff_eq_none]
        using hapart
    rw [hp] at hat
    have hown : s.store.fds fd = some k := h.ordered.owned.store.fds_of_stage (hat.2 ▸ rfl)
    obtain rfl := Option.some.inj (hown.symm.trans hfd)
    exact h.thread_send hordered (hp ▸ rfl) hw hcase hto.thread hwire hto.bcast hcalls hreply
      hadv
  | failed hp =>
    simp only [Server.sendsSucceed, hp, Bool.false_eq_true] at hsucceed

theorem bcastOpen_of_out {b : Broadcast} (hb : s.bcast = some b) (ho : b.pc.out? = none)
    (j : ConnId) : s.bcastOpen j = none := by
  simp only [Server.bcastOpen, hb, ho, Option.filter_none, ite_self]

theorem bcast_step {c : Choice} (h : Apart st s) (hordered : Ordered st' s')
    (hguard : s.respectsOwner (.bcast c) = true) (hstep : s.bcastStep c = some s')
    (hapart : s.sendsApart (.bcast c) = true) : Apart st' s' := by
  obtain ⟨hto, b, hb, hevent⟩ := Server.bcastStep_event hstep
  have htarget := h.ordered.target b hb
  cases hevent with
  | quiet hwire hout hnext =>
    refine h.bcast_silent hordered hto.thread hwire rfl hto.calls (fun b' o hb' ho => ?_)
      (bcastOpen_of_out hb hout)
    rw [hnext b' hb'] at ho
    cases ho
  | begins hpc hwire hnext hcalls =>
    refine h.bcast_silent hordered hto.thread hwire hnext hto.calls (fun b' o hb' ho => ?_)
      (bcastOpen_of_out hb (hpc ▸ rfl))
    cases hb'
    cases ho
    rw [hcalls]
    exact ⟨beginFrame_ok (Or.inl ⟨b.msg, rfl⟩), Nat.le_refl _, rfl⟩
  | @frame seen rest p fd out w j b' hpc hw hfd hwire hcalls hnext hadv htarget' =>
    obtain ⟨msg, pc⟩ := b
    subst hpc
    have hcase : out.midFrame = true ∨ s.threadOpen p.conn = none := by
      simpa only [Server.sendsApart, hb, Bool.or_eq_true, Option.isNone_iff_eq_none]
        using hapart
    obtain rfl := Option.some.inj (htarget.2.symm.trans hfd)
    exact h.bcast_send hordered hb rfl rfl hw hcase hto.thread hwire hnext hcalls htarget' hadv
  | failed hpc =>
    obtain ⟨msg, pc⟩ := b
    subst hpc
    simp only [Server.respectsOwner, hb, Bool.false_eq_true] at hguard

/-- `accept_thread` or `ws_server_stop` moves. -/
theorem other_step (h : Apart st s) (hordered : Ordered st' s')
    (hthread : ∀ j, s'.thread j = s.thread j ∨
      s.thread j = .absent ∧ ∃ p, s'.thread j = .start p)
    (hwires : s'.wire = s.wire) (hbcast : s'.bcast = s.bcast)
    (hcall : s'.nextCall = s.nextCall) : Apart st' s' := by
  have hout : ∀ j, (s'.thread j).out? = (s.thread j).out? := by
    intro j
    rcases hthread j with e | ⟨e, p, e'⟩
    · rw [e]
    · rw [e, e']
      rfl
  have hthreadOpen : ∀ j, s'.threadOpen j = s.threadOpen j := by
    intro j
    unfold Server.threadOpen
    rw [hout]
  obtain ⟨hapart, hpieces, hreader⟩ := h.channels_kept hthreadOpen hbcast fun j => by rw [hwires]
  refine ⟨hordered, fun j p frame next hj => ?_, fun j o hj => ?_, fun b o hb ho => ?_,
    fun j o b o' hj hb ho' => ?_, hapart, hpieces, hreader⟩
  · rcases hthread j with e | ⟨_, q, e⟩
    · exact h.replies j p frame next (e ▸ hj)
    · rw [e] at hj
      cases hj
  · rw [hcall]
    exact h.threadOut j o (hout j ▸ hj)
  · rw [hcall]
    exact h.bcastOut b o (hbcast ▸ hb) ho
  · exact h.distinct j o b o' (hout j ▸ hj) (hbcast ▸ hb) ho'

theorem accept_step {c : Choice} (h : Apart st s) (hordered : Ordered st' s')
    (hstep : s.acceptStep c = some s') : Apart st' s' := by
  obtain ⟨hwires, hbcast, hcall, hthread⟩ := Server.acceptStep_frame hstep
  refine h.other_step hordered (fun j => ?_) hwires hbcast hcall
  rcases hthread with e | ⟨p, n, hp, e⟩
  · exact Or.inl (congrFun e j)
  · rw [e, Function.update_apply]
    by_cases hj : j = p.conn
    · rw [if_pos hj]
      exact Or.inr ⟨hj ▸ h.ordered.owned.held p.conn (hp ▸ rfl), p, rfl⟩
    · rw [if_neg hj]
      exact Or.inl rfl

theorem stop_step {c : Choice} (h : Apart st s) (hordered : Ordered st' s')
    (hstep : s.stopStep c = some s') : Apart st' s' := by
  obtain ⟨hwires, hbcast, hcall, hthread⟩ := Server.stopStep_frame hstep
  exact h.other_step hordered (fun j => Or.inl (congrFun hthread j)) hwires hbcast hcall

theorem init : Apart (fun _ => .absent) Server.init where
  ordered := Ordered.init
  replies := nofun
  threadOut := nofun
  bcastOut := nofun
  distinct := nofun
  apart := fun _ => Or.inl rfl
  pieces := fun _ _ hf => absurd hf List.not_mem_nil
  reader := fun _ => rfl

/-- Steps that keep the senders apart keep the invariant. -/
theorem step {a : Action} (h : Apart st s) (hscope : s.sharedByTwo a)
    (hapart : s.sendsApart a = true) (hstep : s.step a = some s') : ∃ st', Apart st' s' := by
  obtain ⟨⟨howner, hready⟩, hsucceed⟩ := hscope
  obtain ⟨st', _, hordered⟩ := h.ordered.step howner hready hstep
  refine ⟨st', ?_⟩
  cases a with
  | accept c => exact h.accept_step hordered hstep
  | thread k c => exact h.thread_step hordered hsucceed hstep hapart
  | bcast c => exact h.bcast_step hordered howner hstep hapart
  | stop c => exact h.stop_step hordered hstep
  | bcastBegin msg =>
    obtain ⟨hnone, rfl⟩ := Server.bcastBegin_eq_some hstep
    refine h.bcast_silent hordered rfl rfl rfl (Nat.le_refl _) ?_ fun j => ?_
    · intro b o e ho
      cases e
      cases ho
    · rw [Server.bcastOpen, hnone]

/-- What a `send` of a thread puts on its wire. -/
theorem wire_of_thread_send {p : Ptr} {fd : Fd} {out : Sending} {next : After} {w : Nat}
    (hp : s.thread k = .sending p fd out next) (hfd : s.store.fds fd = some k)
    (hstep : s.threadStep k (.sent w) = some s') :
    ¬ (w = 0 ∨ out.buf.length < w) ∧
      s'.wire k = s.wire k ++ [.frame out.call (out.buf.take w)] := by
  obtain ⟨pc, _, hevent⟩ := Server.threadStep_event hstep
  cases hevent with
  | quiet _ hout =>
    rw [hp] at hout
    cases hout
  | http hp' =>
    rw [hp] at hp'
    cases hp'
  | frame hp' hw hfd' hwire =>
    rw [hp] at hp'
    cases hp'
    obtain rfl := Option.some.inj (hfd.symm.trans hfd')
    exact ⟨hw, hwire ▸ Function.update_self _ _ _⟩

/-- What a `send` of a broadcast puts on the wire of its target. -/
theorem wire_of_bcast_send {msg : Bytes} {seen rest : List Ptr} {p : Ptr} {fd : Fd}
    {out : Sending} {w : Nat} (hb : s.bcast = some ⟨msg, .sending seen p rest fd out⟩)
    (hfd : s.store.fds fd = some k) (hstep : s.bcastStep (.sent w) = some s') :
    ¬ (w = 0 ∨ out.buf.length < w) ∧
      s'.wire k = s.wire k ++ [.frame out.call (out.buf.take w)] := by
  obtain ⟨_, b, hb', hevent⟩ := Server.bcastStep_event hstep
  rw [hb] at hb'
  cases hb'
  cases hevent with
  | quiet _ hout => cases hout
  | frame hpc hw hfd' hwire =>
    cases hpc
    obtain rfl := Option.some.inj (hfd.symm.trans hfd')
    exact ⟨hw, hwire ▸ Function.update_self _ _ _⟩

/-- A step that does not keep the senders apart tears a frame. -/
theorem needed {a : Action} (h : Apart st s) (hstep : s.step a = some s')
    (hintact : s'.FramesIntact) : s.sendsApart a = true := by
  cases a with
  | accept c | bcastBegin msg | stop c => rfl
  | thread k c =>
    cases c with
    | sent w =>
      cases hp : s.thread k with
      | sending p fd out next =>
        have ho : (s.thread k).out? = some out := hp ▸ rfl
        have hat := h.ordered.owned.threads k
        rw [hp] at hat
        obtain ⟨hw, hwire⟩ :=
          wire_of_thread_send hp (h.ordered.owned.store.fds_of_stage (hat.2 ▸ rfl)) hstep
        simp only [Server.sendsApart, hp, Bool.or_eq_true, Option.isNone_iff_eq_none]
        by_contra hor
        obtain ⟨hmid, hsome⟩ := not_or.mp hor
        obtain ⟨o', ho'⟩ := Option.ne_none_iff_exists'.mp hsome
        obtain ⟨b, hb, hout⟩ : ∃ b, s.bcast = some b ∧ b.pc.out? = some o' := by
          unfold Server.bcastOpen at ho'
          split at ho'
          next b hb =>
            split at ho'
            · exact ⟨b, hb, (Option.filter_eq_some_iff.mp ho').1⟩
            · cases ho'
          next => cases ho'
        have hnone : s.threadOpen k = none := by
          rw [Server.threadOpen, ho, Option.filter_some, if_neg hmid]
        have hpos : s.position k = some (o'.call, o'.sent) := by
          rw [Server.position, hnone, Option.none_or, ho']
          rfl
        exact h.position_of_intact (h.threadOut k out ho) hw
          (h.distinct k out b o' ho hb hout) hpos (hwire ▸ hintact k)
      | _ => simp only [Server.sendsApart, hp]
    | _ => rfl
  | bcast c =>
    cases c with
    | sent w =>
      cases hb : s.bcast with
      | none => simp only [Server.sendsApart, hb]
      | some b =>
        obtain ⟨msg, pc⟩ := b
        cases pc with
        | sending seen p rest fd out =>
          obtain ⟨_, hfd⟩ := h.ordered.target _ hb
          obtain ⟨hw, hwire⟩ := wire_of_bcast_send hb hfd hstep
          simp only [Server.sendsApart, hb, Bool.or_eq_true, Option.isNone_iff_eq_none]
          by_contra hor
          obtain ⟨hmid, hsome⟩ := not_or.mp hor
          obtain ⟨o', ho'⟩ := Option.ne_none_iff_exists'.mp hsome
          have hout : (s.thread p.conn).out? = some o' := (Option.filter_eq_some_iff.mp ho').1
          have hpos : s.position p.conn = some (o'.call, o'.sent) := by
            rw [Server.position, ho']
            rfl
          exact h.position_of_intact (h.bcastOut _ out hb rfl) hw
            (h.distinct p.conn o' _ out hout hb rfl).symm hpos (hwire ▸ hintact p.conn)
        | _ => simp only [Server.sendsApart, hb]
    | _ => rfl

end Apart

/-! ## Runs -/

/-- **When the frames on the wires are whole.** The setting, `hscope`, is that of two writers:
every `send` succeeds, a connection is written to by its own thread and, from the end of its
handshake on, by broadcasts, and records are left to their owners. `FramesIntact` says that
every wire carries whole frames of the server and then at most a part of one. It holds in every
state a run passes through exactly if no first byte of a frame goes out on a connection while
the other party has a frame partly out there (`sendsApart`). The program has no lock that would
keep the two apart, so this is a condition on the interleaving. -/
theorem frames_intact_iff (as : List Action) (s : Server)
    (hscope : Guarded Server.step Server.sharedByTwo Server.init as)
    (h : exec Server.step Server.init as = some s) :
    Guarded Server.step (fun s a => s.sendsApart a = true) Server.init as ↔
      ∀ pre post m, as = pre ++ post → exec Server.step Server.init pre = some m →
        m.FramesIntact :=
  guarded_iff_forall_reached (I := fun s => ∃ st, Apart st s)
    (fun _ ⟨_, hI⟩ => hI.framesIntact)
    (fun _ _ _ ⟨_, hI⟩ hscope hapart hstep => hI.step hscope hapart hstep)
    (fun _ _ _ ⟨_, hI⟩ _ hstep hintact => hI.needed hstep hintact)
    ⟨_, Apart.init⟩ hscope h

/-- The handshake of `handshakeThenBroadcast`, the status frame sent in two
pieces, and the header of a broadcast after the first or the second of them. -/
def statusAndBroadcast (between : Bool) : List Action :=
  handshakeThenBroadcast.take 9 ++ [.thread 0 .go, .thread 0 (.sent 2)] ++
    (if between then [] else [.thread 0 (.sent 35)]) ++
    [.bcastBegin (ascii "\x7b\x7d"), .bcast .go, .bcast .go, .bcast (.sent 2)]

theorem broadcast_after_status_intact :
    ∃ s, exec Server.step Server.init (statusAndBroadcast false) = some s ∧
      s.FramesIntact ∧ (framePieces (s.wire 0)).length = 3 := by
  have hrun : (exec Server.step Server.init (statusAndBroadcast false)).map
      (fun s => (framePieces (s.wire 0)).length) = some 3 := by decide +kernel
  obtain ⟨s, hs, hend⟩ := Option.map_eq_some_iff.mp hrun
  refine ⟨s, hs, ?_, hend⟩
  exact (frames_intact_iff (statusAndBroadcast false) s (by decide +kernel) hs).mp
    (by decide +kernel) _ [] s (List.append_nil _).symm hs

/-- A broadcast writes its header between the header and the payload of the
status frame. -/
theorem broadcast_inside_status_torn :
    ∃ s, Guarded Server.step Server.sharedByTwo Server.init (statusAndBroadcast true) ∧
      exec Server.step Server.init (statusAndBroadcast true) = some s ∧ ¬ s.FramesIntact := by
  have hrun : (exec Server.step Server.init (statusAndBroadcast true)).map
      (fun s => ((framePieces (s.wire 0)).all fun f => f.2 ≠ [],
        followAll FrameCall.bytes (framePieces (s.wire 0)))) = some (true, none) := by
    decide +kernel
  obtain ⟨s, hs, hend⟩ := Option.map_eq_some_iff.mp hrun
  obtain ⟨hne, hnone⟩ := Prod.mk.inj hend
  refine ⟨s, by decide +kernel, hs, fun h => ?_⟩
  obtain ⟨o, ho⟩ := followAll_of_framed
    (fun f hf => of_decide_eq_true (List.all_eq_true.mp hne f hf)) (h 0).framed
  rw [hnone] at ho
  cases ho

end TelemetryTestbed.WebSocket
