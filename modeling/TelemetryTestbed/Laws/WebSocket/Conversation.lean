import TelemetryTestbed.Laws.WebSocket.Receive
import TelemetryTestbed.WebSocket.Conversation

/-!
# Every request is answered once, in its turn

The thread of a connection begins a frame only where it holds one, and it holds one only
from the handshake or from the frame it has just received. So what it has begun, with the
reply it holds, is the greeting and the answers to the frames it has received, in order,
whatever the other connections, the broadcasts and the end of the server do in between.

The invariant (`InTurn`) follows the program counter of one thread: what it holds, what it has
begun, and how much of it is out. A step of any other party leaves all of that alone, so what
is left to prove are the steps of the thread itself, by what it does in each: it stays quiet,
begins a frame, sends, fails, or receives.
-/

namespace TelemetryTestbed.WebSocket

open TelemetryTestbed.Lib

/-! ## Replies as messages -/

theorem wsSendControl_bytes (opcode : Fin 16) (payload : Bytes) :
    (wsSendControl (UInt8.ofNat opcode) payload).flatten =
      encodeFrame opcode none (payload.take 125) := by
  have hshort : (payload.take 125).length ≤ 125 := List.length_take_le _ _
  have hform : lengthField (payload.take 125).length = ((payload.take 125).length, []) :=
    if_pos hshort
  have hopcode : (0x80 : UInt8) ||| (UInt8.ofNat opcode &&& 0x0F) = UInt8.ofNat (128 + opcode) := by
    revert opcode
    decide
  have hpayload : (if payload.take 125 = [] then [] else [payload.take 125]).flatten =
      payload.take 125 := by
    split
    next h => rw [h, List.flatten_nil]
    next => rw [List.flatten_cons, List.flatten_nil, List.append_nil]
  rw [wsSendControl, List.flatten_cons, hpayload, hopcode, encodeFrame, hform]
  simp [lengthByte, maskBytes, maskPayload]

/-- The frame of a reply. -/
def Reply.frame? : Reply → Option (List Bytes)
  | .send frame | .sendAndLeave frame => some frame
  | .ignore => none

/-- The thread leaves its loop after the reply. -/
def Reply.leaves : Reply → Bool
  | .sendAndLeave _ => true
  | _ => false

/-- The dispatch of `client_thread` sends the answer. -/
theorem clientReply_answer (db : Option HistoryQuery) (f : Frame) :
    (clientReply db f.opcode f.payload).frame?.map List.flatten =
      (answer f db).map Said.bytes := by
  have htext : ∀ msg, some (wsSendText msg).flatten = some (Said.bytes (1, msg)) :=
    fun msg => congrArg some (wsSendText_bytes msg)
  unfold clientReply answer
  split
  next => exact congrArg some (wsSendControl_bytes 8 [])
  next =>
    split
    next => exact congrArg some (wsSendControl_bytes 10 f.payload)
    next =>
      split
      next h => rw [h, if_neg (fun hand => absurd hand.1 (by decide))]; rfl
      next =>
        split
        next hne => rw [if_neg (fun hand => hne hand.1)]; rfl
        next hop =>
          split
          next hreq =>
            rw [if_pos ⟨not_not.mp hop, hreq⟩]
            cases db with
            | none => exact htext _
            | some query =>
              unfold historyAnswer
              dsimp only
              cases query (jsonFindInt (cstr f.payload) (ascii "\"last\"") 300) with
              | none | some _ => exact htext _
          next hreq => rw [if_neg (fun hand => hreq hand.2)]; rfl

/-- After a close frame the thread leaves. -/
theorem clientReply_close (db : Option HistoryQuery) (payload : Bytes) :
    clientReply db 0x8 payload = .sendAndLeave (wsSendControl 0x8 []) := if_pos rfl

/-! ## A connection has one thread -/

/-- No thread has been started for a connection `accept_thread` still holds, or that is
still to come. -/
structure Server.Unstarted (s : Server) : Prop where
  toCome : ∀ j, s.store.nextConn ≤ j → s.thread j = .absent
  held : ∀ j, s.accept.holds = some j → j < s.store.nextConn ∧ s.thread j = .absent

theorem Store.Change.nextConn {t t' : Store} {known : Ptr → Prop} (h : t.Change known t') :
    t'.nextConn = t.nextConn := by
  have htouch : ∀ (t : Store) p, (t.touch p).nextConn = t.nextConn :=
    fun t p => (Store.keeps_touch t p).nextConn
  cases h with
  | same | take | close => rfl
  | touch p | push p _ | relink p _ _ | free p _ => exact htouch t p
  | markDead p => exact (Store.keeps_markDead t p).nextConn
  | closeOf p => exact (Store.keeps_closeOf t p).nextConn
  | clientRemove p => exact (Store.keeps_clientRemove t p).nextConn

namespace Server

variable {s s' : Server} {k : ConnId}

theorem Unstarted.accept {c : Choice} (h : s.Unstarted) (hstep : s.acceptStep c = some s') :
    s'.Unstarted := by
  obtain ⟨-, hevent⟩ := acceptStep_event hstep
  cases hevent with
  | quiet hthread hptr hholds hpc hstore =>
    refine ⟨fun j hj => ?_, fun j hj => ?_⟩
    · rw [hstore.nextConn] at hj
      rw [hthread]
      exact h.toCome j hj
    · rw [hstore.nextConn, hthread]
      exact h.held j (hholds j hj)
  | opened hthread hfree hpc hstore =>
    have hnext : s'.store.nextConn = s.store.nextConn + 1 := by rw [hstore]; rfl
    refine ⟨fun j hj => ?_, fun j hj => ?_⟩
    · rw [hnext] at hj
      rw [hthread]
      exact h.toCome j (Nat.le_of_succ_le hj)
    · rw [hpc] at hj
      obtain rfl := Option.some.inj hj
      rw [hthread, hnext]
      exact ⟨Nat.lt_succ_self _, h.toCome _ (Nat.le_refl _)⟩
  | allocated hp hthread hpc hstore =>
    have hnext : s'.store.nextConn = s.store.nextConn := by rw [hstore]; rfl
    refine ⟨fun j hj => ?_, fun j hj => ?_⟩
    · rw [hnext] at hj
      rw [hthread]
      exact h.toCome j hj
    · rw [hpc] at hj
      rw [hthread, hnext]
      exact h.held j (by rw [hp]; exact hj)
  | @created p n hp hthread hpc hstore =>
    have hnext : s'.store.nextConn = s.store.nextConn := by
      rw [hstore]
      exact (Store.keeps_touch s.store p).nextConn
    obtain ⟨hlt, -⟩ := h.held p.conn (by rw [hp]; rfl)
    refine ⟨fun j hj => ?_, fun j hj => ?_⟩
    · rw [hnext] at hj
      rw [hthread, Function.update_of_ne (hlt.trans_le hj).ne']
      exact h.toCome j hj
    · rw [hpc] at hj
      cases hj

theorem Unstarted.thread {c : Choice} (h : s.Unstarted) (hstep : s.threadStep k c = some s') :
    s'.Unstarted := by
  obtain ⟨pc, hto, -⟩ := threadStep_event hstep
  obtain ⟨p, hp, -⟩ := hto.ptr
  have hne : ∀ j, s.thread j = .absent → s'.thread j = .absent := by
    intro j hj
    have hjk : j ≠ k := by
      rintro rfl
      rw [hj] at hp
      cases hp
    rw [hto.thread, Function.update_of_ne hjk, hj]
  refine ⟨fun j hj => ?_, fun j hj => ?_⟩
  · rw [hto.store.nextConn] at hj
    exact hne j (h.toCome j hj)
  · rw [hto.accept] at hj
    rw [hto.store.nextConn]
    exact (h.held j hj).imp_right (hne j)

theorem Unstarted.step {a : Action} (h : s.Unstarted) (hstep : s.step a = some s') :
    s'.Unstarted := by
  have hkept : s'.thread = s.thread → s'.accept = s.accept →
      s.store.Change s.Points s'.store → s'.Unstarted := by
    intro hthread haccept hstore
    refine ⟨fun j hj => ?_, fun j hj => ?_⟩
    · rw [hstore.nextConn] at hj
      rw [hthread]
      exact h.toCome j hj
    · rw [haccept] at hj
      rw [hstore.nextConn, hthread]
      exact h.held j hj
  cases a with
  | accept c => exact h.accept hstep
  | thread k c => exact h.thread hstep
  | bcastBegin msg =>
    obtain ⟨-, rfl⟩ := bcastBegin_eq_some hstep
    exact ⟨h.toCome, h.held⟩
  | bcast c =>
    obtain ⟨hto, -⟩ := bcastStep_event hstep
    exact hkept hto.thread hto.accept hto.store
  | stop c =>
    obtain ⟨haccept, -, hstore⟩ := stopStep_event hstep
    exact hkept (stopStep_kept hstep).2.2 haccept hstore

/-- The thread of a connection is moved by its own steps, and begun once. -/
theorem Unstarted.thread_of_other {a : Action} (h : s.Unstarted) (hstep : s.step a = some s')
    (ha : ∀ c, a ≠ .thread k c) :
    s'.thread k = s.thread k ∨ s.thread k = .absent ∧ ∃ p, s'.thread k = .start p := by
  cases a with
  | accept c =>
    obtain ⟨-, hevent⟩ := acceptStep_event hstep
    cases hevent with
    | quiet hthread | opened hthread | allocated _ hthread => exact Or.inl (by rw [hthread])
    | @created p n hp hthread =>
      rw [hthread, Function.update_apply]
      split
      next hk => exact Or.inr ⟨hk ▸ (h.held p.conn (by rw [hp]; rfl)).2, p, rfl⟩
      next => exact Or.inl rfl
  | thread j c =>
    obtain ⟨pc, hto, -⟩ := threadStep_event hstep
    have hk : k ≠ j := fun e => ha c (by rw [e])
    rw [hto.thread, Function.update_of_ne hk]
    exact Or.inl rfl
  | bcastBegin msg =>
    obtain ⟨-, rfl⟩ := bcastBegin_eq_some hstep
    exact Or.inl rfl
  | bcast c => exact Or.inl (by rw [(bcastStep_event hstep).1.thread])
  | stop c => exact Or.inl (by rw [(stopStep_kept hstep).2.2])

end Server

/-! ## What has been said by now -/

namespace ThreadPc

/-- The handshake is over. -/
def settled : ThreadPc → Bool
  | absent | start _ | handshake _ _ _ | respond _ _ _ _ => false
  | _ => true

/-- The thread is in its loop, and comes back to `ws_recv_frame`. -/
def listens : ThreadPc → Bool
  | reply _ _ next | sending _ _ _ next => next = .loop
  | head _ | recv _ | receiving _ _ => true
  | _ => false

end ThreadPc

/-- The frame that is begun is all there is to send. -/
theorem unsent_beginFrame (s : Server) (p : Ptr) (fd : Fd) (frame : List Bytes) (next : After) :
    (ThreadPc.sending p fd (s.beginFrame frame) next).unsent = frame.flatten := by
  cases frame with
  | nil | cons => rfl

theorem Sending.advance_some {out out' : Sending} {w : Nat} (h : out.advance w = some out') :
    out.buf.take w ++ (out'.buf ++ out'.rest.flatten) = out.buf ++ out.rest.flatten := by
  have hsplit := List.take_append_drop w out.buf
  unfold Sending.advance at h
  dsimp only at h
  split at h
  next hdrop =>
    rw [hdrop, List.append_nil] at hsplit
    split at h
    next => cases h
    next b rest hrest =>
      cases h
      rw [hsplit, hrest]
      rfl
  next =>
    cases h
    rw [← List.append_assoc, hsplit]

theorem Sending.advance_none {out : Sending} {w : Nat} (h : out.advance w = none) :
    out.buf.take w = out.buf ++ out.rest.flatten := by
  have hsplit := List.take_append_drop w out.buf
  unfold Sending.advance at h
  dsimp only at h
  split at h
  next hdrop =>
    rw [hdrop, List.append_nil] at hsplit
    split at h
    next hrest => rw [hsplit, hrest, List.flatten_nil, List.append_nil]
    next => cases h
  next => cases h

theorem Conversation.said_concat (v : Conversation) (f : Frame) (db : Option HistoryQuery)
    (o : Outcome) :
    Conversation.said { v with received := v.received ++ [(f, db)] } o =
      v.said o ++ (answer f db).toList := by
  have hone : [(f, db)].filterMap (fun r => answer r.1 r.2) = (answer f db).toList := by
    simp only [List.filterMap_cons, List.filterMap_nil]
    cases answer f db with
    | none | some => rfl
  unfold said
  rw [List.filterMap_append, ← List.append_assoc, hone]

namespace Talk

variable {k : ConnId} {t t' : Talk} {s' : Server}

/-- The invariant of a conversation. `said` ties the frames begun and the one in hand to the
frames received, `silent` says that nothing is said before the handshake is answered, `sent`
counts the bytes that are out, and `listening` that nothing is read behind a close frame. -/
structure InTurn (k : ConnId) (t : Talk) : Prop where
  unstarted : t.server.Unstarted
  said : t.conversation.begun ++ (t.server.thread k).pending =
    (t.conversation.said (t.server.outcome k)).map Said.bytes
  silent : (t.server.thread k).settled = false →
    t.server.outcome k = .pending ∧ t.conversation = .empty
  sent : t.conversation.cut = false →
    t.conversation.sent ++ (t.server.thread k).unsent = t.conversation.begun.flatten
  listening : (t.server.thread k).listens = true → ∀ r ∈ t.conversation.received, r.1.opcode ≠ 0x8
  closed : ∀ r ∈ t.conversation.received.dropLast, r.1.opcode ≠ 0x8

theorem inTurn_init (k : ConnId) : InTurn k .init where
  unstarted := ⟨fun _ _ => rfl, nofun⟩
  said := rfl
  silent _ := ⟨rfl, rfl⟩
  sent _ := rfl
  listening := nofun
  closed := nofun

/-- The thread goes on, and says nothing. -/
theorem InTurn.quiet (h : t.InTurn k) {pc : ThreadPc} (hs' : s'.Unstarted)
    (hthread : s'.thread k = pc) (houtcome : s'.outcome k = t.server.outcome k)
    (hpending : pc.pending = (t.server.thread k).pending)
    (hunsent : pc.unsent = (t.server.thread k).unsent)
    (hsettled : pc.settled = false → (t.server.thread k).settled = false)
    (hlistens : pc.listens = true → (t.server.thread k).listens = true) :
    InTurn k ⟨s', t.conversation⟩ := by
  subst hthread
  refine ⟨hs', ?_, fun hp => ?_, fun hcut => ?_, fun hp => h.listening (hlistens hp), h.closed⟩
  · show t.conversation.begun ++ (s'.thread k).pending = _
    rw [hpending, h.said]
    show _ = (t.conversation.said (s'.outcome k)).map _
    rw [houtcome]
  · show s'.outcome k = _ ∧ _
    rw [houtcome]
    exact h.silent (hsettled hp)
  · show t.conversation.sent ++ (s'.thread k).unsent = _
    rw [hunsent]
    exact h.sent hcut

/-- The handshake is rejected. -/
theorem InTurn.reject (h : t.InTurn k) {p : Ptr} (hs' : s'.Unstarted)
    (hp : (t.server.thread k).settled = false) (hthread : s'.thread k = .leave p)
    (houtcome : s'.outcome k = .rejected) : InTurn k ⟨s', t.conversation⟩ := by
  obtain ⟨-, hempty⟩ := h.silent hp
  rw [hempty]
  refine ⟨hs', ?_, fun hleave => ?_, fun _ => ?_, fun hleave => ?_, nofun⟩
  · show [] ++ (s'.thread k).pending = (Conversation.said .empty (s'.outcome k)).map _
    rw [hthread, houtcome]
    rfl
  · rw [hthread] at hleave
    cases hleave
  · show [] ++ (s'.thread k).unsent = _
    rw [hthread]
    rfl
  · rw [hthread] at hleave
    cases hleave

/-- The response is out, and the greeting is next. -/
theorem InTurn.greet (h : t.InTurn k) {p : Ptr} {http : Bytes} (hs' : s'.Unstarted)
    (hp : (t.server.thread k).settled = false)
    (hthread : s'.thread k = .reply p (wsSendText onlineStatus) .loop)
    (houtcome : s'.outcome k = .completed http) : InTurn k ⟨s', t.conversation⟩ := by
  obtain ⟨-, hempty⟩ := h.silent hp
  rw [hempty]
  refine ⟨hs', ?_, fun hreply => ?_, fun _ => ?_, fun _ => nofun, nofun⟩
  · show [] ++ (s'.thread k).pending = (Conversation.said .empty (s'.outcome k)).map _
    rw [hthread, houtcome]
    exact congrArg (fun b => [b]) (wsSendText_bytes onlineStatus)
  · rw [hthread] at hreply
    cases hreply
  · show [] ++ (s'.thread k).unsent = _
    rw [hthread]
    rfl

/-- The reply is begun. -/
theorem InTurn.begin (h : t.InTurn k) {p : Ptr} {fd : Fd} {frame : List Bytes} {next : After}
    (hs' : s'.Unstarted) (hp : t.server.thread k = .reply p frame next)
    (hthread : s'.thread k = .sending p fd (t.server.beginFrame frame) next)
    (houtcome : s'.outcome k = t.server.outcome k) :
    InTurn k ⟨s', { t.conversation with begun := t.conversation.begun ++ [frame.flatten] }⟩ := by
  have hsaid := h.said
  have hsent := h.sent
  have hlistening := h.listening
  rw [hp] at hsaid hsent hlistening
  refine ⟨hs', ?_, fun hsettled => ?_, fun hcut => ?_, fun hlistens => ?_, h.closed⟩
  · show (t.conversation.begun ++ [frame.flatten]) ++ (s'.thread k).pending =
      (t.conversation.said (s'.outcome k)).map _
    rw [hthread, houtcome, ← hsaid]
    exact List.append_nil _
  · rw [hthread] at hsettled
    cases hsettled
  · show t.conversation.sent ++ (s'.thread k).unsent =
      (t.conversation.begun ++ [frame.flatten]).flatten
    rw [hthread, unsent_beginFrame, List.flatten_concat, ← hsent hcut]
    simp only [ThreadPc.unsent, List.append_nil]
  · rw [hthread] at hlistens
    exact hlistening hlistens

/-- A `send` takes a part of what is left. -/
theorem InTurn.send (h : t.InTurn k) {p : Ptr} {fd : Fd} {out : Sending} {next : After}
    {bytes : Bytes} {pc : ThreadPc} (hs' : s'.Unstarted)
    (hp : t.server.thread k = .sending p fd out next) (hthread : s'.thread k = pc)
    (houtcome : s'.outcome k = t.server.outcome k)
    (hbytes : bytes ++ pc.unsent = out.buf ++ out.rest.flatten) (hpending : pc.pending = [])
    (hsettled : pc.settled = true) (hlistens : pc.listens = true → next = .loop) :
    InTurn k ⟨s', { t.conversation with sent := t.conversation.sent ++ bytes }⟩ := by
  have hsaid := h.said
  have hsent := h.sent
  have hlistening := h.listening
  rw [hp] at hsaid hsent hlistening
  subst hthread
  refine ⟨hs', ?_, fun hset => ?_, fun hcut => ?_, fun hloop => ?_, h.closed⟩
  · show t.conversation.begun ++ (s'.thread k).pending =
      (t.conversation.said (s'.outcome k)).map _
    rw [hpending, houtcome, ← hsaid]
    rfl
  · exact absurd (hsettled.symm.trans hset) Bool.noConfusion
  · show (t.conversation.sent ++ bytes) ++ (s'.thread k).unsent = _
    rw [List.append_assoc, hbytes]
    exact hsent hcut
  · exact hlistening (decide_eq_true (hlistens hloop))

/-- A `send` fails: nothing is promised of the bytes any more. -/
theorem InTurn.fail (h : t.InTurn k) {p : Ptr} {fd : Fd} {out : Sending} {next : After}
    {pc : ThreadPc} (hs' : s'.Unstarted) (hp : t.server.thread k = .sending p fd out next)
    (hthread : s'.thread k = pc) (houtcome : s'.outcome k = t.server.outcome k)
    (hpending : pc.pending = []) (hsettled : pc.settled = true)
    (hlistens : pc.listens = true → next = .loop) :
    InTurn k ⟨s', { t.conversation with cut := true }⟩ := by
  have hsaid := h.said
  have hlistening := h.listening
  rw [hp] at hsaid hlistening
  subst hthread
  refine ⟨hs', ?_, fun hset => ?_, nofun, fun hloop => ?_, h.closed⟩
  · show t.conversation.begun ++ (s'.thread k).pending =
      (t.conversation.said (s'.outcome k)).map _
    rw [hpending, houtcome, ← hsaid]
    rfl
  · exact absurd (hsettled.symm.trans hset) Bool.noConfusion
  · exact hlistening (decide_eq_true (hlistens hloop))

/-- The answer to a frame is next. -/
theorem InTurn.receive (h : t.InTurn k) {p : Ptr} {fd : Fd} {f : Frame}
    {db : Option HistoryQuery} {pc : ThreadPc} (hs' : s'.Unstarted)
    (hp : t.server.thread k = .receiving p fd) (hthread : s'.thread k = pc)
    (houtcome : s'.outcome k = t.server.outcome k)
    (hpending : pc.pending = ((answer f db).map Said.bytes).toList) (hunsent : pc.unsent = [])
    (hsettled : pc.settled = true) (hlistens : pc.listens = true → f.opcode ≠ 0x8) :
    InTurn k ⟨s', { t.conversation with received := t.conversation.received ++ [(f, db)] }⟩ := by
  have hsaid := h.said
  have hsent := h.sent
  have hbefore := h.listening
  rw [hp] at hsaid hsent hbefore
  replace hbefore := hbefore rfl
  subst hthread
  refine ⟨hs', ?_, fun hset => ?_, fun hcut => ?_, fun hloop r hr => ?_, ?_⟩
  · show t.conversation.begun ++ (s'.thread k).pending = (Conversation.said
      { t.conversation with received := t.conversation.received ++ [(f, db)] } _).map _
    rw [hpending, houtcome, Conversation.said_concat, List.map_append, ← hsaid]
    cases answer f db with
    | none | some => simp [ThreadPc.pending]
  · exact absurd (hsettled.symm.trans hset) Bool.noConfusion
  · show t.conversation.sent ++ (s'.thread k).unsent = _
    rw [hunsent]
    exact hsent hcut
  · rcases List.mem_append.mp hr with hr | hr
    · exact hbefore r hr
    · obtain rfl := List.mem_singleton.mp hr
      exact hlistens hloop
  · show ∀ r ∈ (t.conversation.received ++ [(f, db)]).dropLast, _
    rw [List.dropLast_concat]
    exact hbefore

theorem InTurn.own {c : Choice} (h : t.InTurn k) (hstep : t.server.threadStep k c = some s') :
    InTurn k ⟨s', t.conversation.note (t.server.thread k) c⟩ := by
  have hs' : s'.Unstarted := h.unstarted.thread hstep
  have hquiet : ∀ {pc pc' : ThreadPc}, t.server.thread k = pc →
      s'.thread = Function.update t.server.thread k pc' → s'.outcome = t.server.outcome →
      pc'.pending = pc.pending → pc'.unsent = pc.unsent →
      (pc'.settled = false → pc.settled = false) → (pc'.listens = true → pc.listens = true) →
      InTurn k ⟨s', t.conversation⟩ := by
    rintro pc pc' rfl hthread houtcome hpending hunsent hsettled hlistens
    exact h.quiet hs' (by rw [hthread, Function.update_self]) (by rw [houtcome]) hpending hunsent
      hsettled hlistens
  have hreject : ∀ {pc : ThreadPc} {p : Ptr}, t.server.thread k = pc →
      s' = t.server.reject k p → pc.settled = false → InTurn k ⟨s', t.conversation⟩ := by
    rintro pc p rfl rfl hsettled
    exact h.reject hs' hsettled (Function.update_self ..) (Function.update_self ..)
  unfold Server.threadStep at hstep
  split at hstep
  next p hp =>
    cases hstep
    rw [hp]
    exact hquiet hp rfl rfl rfl rfl id id
  next p fd buf hp =>
    cases hstep
    rw [hp]
    exact hreject hp rfl rfl
  next p fd buf bytes hp =>
    rw [hp]
    split at hstep
    · cases hstep
    · split at hstep
      · cases hstep
        exact hquiet hp rfl rfl rfl rfl id id
      · cases hstep
        exact hreject hp rfl rfl
      · split at hstep
        · cases hstep
          exact hreject hp rfl rfl
        · cases hstep
          exact hquiet hp rfl rfl rfl rfl id id
  next p fd http rest hp =>
    cases hstep
    rw [hp]
    exact hreject hp rfl rfl
  next p fd http rest w hp =>
    rw [hp]
    split at hstep
    · cases hstep
    · obtain ⟨m, hm, hs⟩ := Option.map_eq_some_iff.mp hstep
      obtain ⟨i, -, rfl⟩ := Option.map_eq_some_iff.mp hm
      split at hs
      · cases hs
        exact h.greet hs' (by rw [hp]; rfl) (Function.update_self ..) (Function.update_self ..)
      · cases hs
        exact hquiet hp rfl rfl rfl rfl id id
  next p frame next hp =>
    cases hstep
    rw [hp]
    exact h.begin hs' hp (Function.update_self ..) rfl
  next p fd out next hp =>
    rw [hp]
    cases hstep
    cases next with
    | loop => exact h.fail hs' hp (Function.update_self ..) rfl rfl rfl fun _ => rfl
    | leave => exact h.fail hs' hp (Function.update_self ..) rfl rfl rfl nofun
  next p fd out next w hp =>
    rw [hp]
    split at hstep
    · cases hstep
    · obtain ⟨m, hm, hs⟩ := Option.map_eq_some_iff.mp hstep
      obtain ⟨i, -, rfl⟩ := Option.map_eq_some_iff.mp hm
      cases hadv : out.advance w with
      | some out' =>
        rw [hadv] at hs
        cases hs
        exact h.send hs' hp (Function.update_self ..) rfl (Sending.advance_some hadv) rfl rfl
          of_decide_eq_true
      | none =>
        rw [hadv] at hs
        cases hs
        have hrest := (List.append_nil _).trans (Sending.advance_none hadv)
        cases next with
        | loop => exact h.send hs' hp (Function.update_self ..) rfl hrest rfl rfl fun _ => rfl
        | leave => exact h.send hs' hp (Function.update_self ..) rfl hrest rfl rfl nofun
  next p hp =>
    cases hstep
    rw [hp]
    refine hquiet hp rfl rfl ?_ ?_ ?_ fun _ => rfl
    · split <;> rfl
    · split <;> rfl
    · split <;> nofun
  next p hp =>
    cases hstep
    rw [hp]
    exact hquiet hp rfl rfl rfl rfl id id
  next p fd hp =>
    cases hstep
    rw [hp]
    exact hquiet hp rfl rfl rfl rfl id nofun
  next p fd opcode payload db hp =>
    rw [hp]
    have hanswer := clientReply_answer db ⟨opcode, payload⟩
    dsimp only at hanswer
    have hclose : ∀ {r}, clientReply db opcode payload = r → r.leaves = false → opcode ≠ 0x8 := by
      rintro _ rfl hr rfl
      rw [clientReply_close] at hr
      cases hr
    cases hstep
    cases hreply : clientReply db opcode payload with
    | send frame | ignore =>
      rw [hreply] at hanswer hs'
      refine h.receive hs' hp (Function.update_self ..) rfl ?_ rfl rfl fun _ => hclose hreply rfl
      rw [← hanswer]
      rfl
    | sendAndLeave frame =>
      rw [hreply] at hanswer hs'
      refine h.receive hs' hp (Function.update_self ..) rfl ?_ rfl rfl nofun
      rw [← hanswer]
      rfl
  next p hp =>
    cases hstep
    rw [hp]
    exact hquiet hp rfl rfl rfl rfl id nofun
  next p hp =>
    cases hstep
    rw [hp]
    exact hquiet hp rfl rfl rfl rfl id nofun
  next p hp =>
    rw [hp]
    split at hstep
    · cases hstep
      exact hquiet hp rfl rfl rfl rfl id nofun
    · cases hstep
  next p hp =>
    cases hstep
    rw [hp]
    exact hquiet hp rfl rfl rfl rfl id nofun
  next => cases hstep

theorem InTurn.step {a : Action} (h : t.InTurn k) (hstep : t.step k a = some t') :
    t'.InTurn k := by
  obtain ⟨s', hs, rfl⟩ := Option.map_eq_some_iff.mp hstep
  by_cases ha : ∃ c, a = .thread k c
  · obtain ⟨c, rfl⟩ := ha
    have hrecord : t.conversation.record k t.server (.thread k c) =
        t.conversation.note (t.server.thread k) c := if_pos rfl
    rw [hrecord]
    exact h.own hs
  · have hother : ∀ c, a ≠ .thread k c := fun c hc => ha ⟨c, hc⟩
    have hs' : s'.Unstarted := h.unstarted.step hs
    have houtcome : s'.outcome k = t.server.outcome k := (Server.step_kept hs).2 hother
    have hrecord : t.conversation.record k t.server a = t.conversation := by
      unfold Conversation.record
      split
      next j c => exact if_neg fun hj => hother c (by rw [hj])
      next => rfl
    rw [hrecord]
    rcases h.unstarted.thread_of_other hs hother with hthread | ⟨habsent, p, hstart⟩
    · exact h.quiet hs' hthread houtcome rfl rfl id id
    · refine h.quiet hs' hstart houtcome ?_ ?_ (fun _ => ?_) nofun
      · rw [habsent]
        rfl
      · rw [habsent]
        rfl
      · rw [habsent]
        rfl

/-- The record does not keep the server from anything. -/
theorem exists_run {as : List Action} {s s' : Server} (v : Conversation)
    (h : exec Server.step s as = some s') : ∃ v', exec (Talk.step k) ⟨s, v⟩ as = some ⟨s', v'⟩ := by
  induction as generalizing s v with
  | nil =>
    cases h
    exact ⟨v, rfl⟩
  | cons a as ih =>
    obtain ⟨m, hm, hrest⟩ := exec_cons h
    obtain ⟨v', hv'⟩ := ih (v.record k s a) hrest
    refine ⟨v', ?_⟩
    rw [exec, Talk.step, hm]
    exact hv'

/-- What a client can rely on, as long as no `send` to it fails: the bytes of its thread are
whole messages and then at most a part of one, and the messages are the greeting and the answers
in turn. All of them are out when the thread waits for a frame, and a close frame is the last
that is received. `cut` is the bookkeeping of a `send` that has failed. -/
structure Answered (k : ConnId) (t : Talk) : Prop where
  begun : t.conversation.begun ++ (t.server.thread k).pending =
    (t.conversation.said (t.server.outcome k)).map Said.bytes
  sent : t.conversation.cut = false →
    t.conversation.sent ++ (t.server.thread k).unsent = t.conversation.begun.flatten
  waiting : ∀ p fd, t.server.thread k = .receiving p fd → t.conversation.cut = false →
    t.conversation.sent = (t.conversation.said (t.server.outcome k)).flatMap Said.bytes
  closed : ∀ r ∈ t.conversation.received.dropLast, r.1.opcode ≠ 0x8

theorem InTurn.answered (h : t.InTurn k) : t.Answered k where
  begun := h.said
  sent := h.sent
  waiting p fd hp hcut := by
    have hsaid := h.said
    have hsent := h.sent hcut
    rw [hp] at hsaid hsent
    calc t.conversation.sent = t.conversation.begun.flatten := (List.append_nil _).symm.trans hsent
      _ = ((t.conversation.said (t.server.outcome k)).map Said.bytes).flatten :=
        congrArg List.flatten ((List.append_nil _).symm.trans hsaid)
      _ = _ := List.flatMap_def.symm
  closed := h.closed

/-- **Every request is answered once, in its turn.** For every run of the server, which takes in
all connections, broadcasts and the end of the server, and for every connection `k`, the
bookkeeping of its conversation can be run alongside (`Talk.step`) and has the shape `Answered`:
the frames its thread has begun, with the one it holds ready, are the response of the handshake
and then the answers to the frames received, one for each that has an answer and in their order;
until a `send` of that thread fails, its bytes are those messages and at most a part of one, and
all of them are out whenever the thread waits for the next frame. A close frame is the last that
is received. -/
theorem answered_in_turn (k : ConnId) {as : List Action} {s : Server}
    (h : exec Server.step .init as = some s) :
    ∃ v, exec (Talk.step k) .init as = some ⟨s, v⟩ ∧ Answered k ⟨s, v⟩ := by
  obtain ⟨v, hv⟩ := exists_run .empty h
  have hI : InTurn k ⟨s, v⟩ :=
    exec_preserves (fun _ _ _ hI hstep => InTurn.step hI hstep) (inTurn_init k) hv
  exact ⟨v, hv, hI.answered⟩

/-- A ping in the middle of a broadcast to the same client, and then a close frame. -/
def pingAndClose : List Action :=
  handshakeThenBroadcast.take 9 ++
    [.thread 0 .go, .thread 0 (.sent 2), .thread 0 (.sent 35), .thread 0 .go, .thread 0 .go,
     .bcastBegin (ascii "\x7b\x7d"), .bcast .go, .bcast .go, .thread 0 (.frame 9 [7] none),
     .bcast (.sent 2), .thread 0 .go, .thread 0 (.sent 2), .thread 0 (.sent 1), .thread 0 .go,
     .thread 0 .go, .thread 0 (.frame 8 [] none), .thread 0 .go, .thread 0 (.sent 2)]

theorem ping_and_close_answered :
    ∃ s v, exec (Talk.step 0) .init pingAndClose = some ⟨s, v⟩ ∧ Answered 0 ⟨s, v⟩ ∧
      v.begun = [greeting.bytes, [0x8A, 1, 7], [0x88, 0]] := by
  have hrun : (exec Server.step .init pingAndClose).isSome = true := by decide +kernel
  obtain ⟨s, hs⟩ := Option.isSome_iff_exists.mp hrun
  obtain ⟨v, hv, hanswered⟩ := answered_in_turn 0 hs
  refine ⟨s, v, hv, hanswered, ?_⟩
  have hbegun : (exec (Talk.step 0) .init pingAndClose).map (fun t => t.conversation.begun) =
      some [greeting.bytes, [0x8A, 1, 7], [0x88, 0]] := by decide +kernel
  rw [hv] at hbegun
  exact Option.some.inj hbegun

end Talk

end TelemetryTestbed.WebSocket
