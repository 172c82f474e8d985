import TelemetryTestbed.Laws.WebSocket.Codec
import TelemetryTestbed.Laws.WebSocket.HandshakeFirst
import TelemetryTestbed.Laws.WebSocket.Steps
import TelemetryTestbed.WebSocket.Receive

/-!
# What a receive timeout does to a session

A connection whose handshake is completed stays in the loop of its `client_thread`, on
the list and with its descriptor open, and its thread hands out the frames of which it
has all bytes, as long as no `recv` runs into its timeout. The first one that does ends
the loop: to `recv_all` a timeout is a failure like any other.

The bytes that have arrived for a connection are a prefix of what the client sends, and the
invariant says how far its reader has got in them: between two frames, or within one, with the
part that it still wants. A step of another connection leaves that alone. The proof of the
converse takes the first timeout and shows that the thread is not in its loop behind it.
-/

namespace TelemetryTestbed.WebSocket

open TelemetryTestbed.Lib

/-! ## The reader that waits is `ws_recv_frame` -/

/-- The reader that gets what is wanted from `recv_all`. -/
def readerOf {α : Type} : Demand UInt8 α → Reader UInt8 α
  | .ret a => .ret a
  | .fail => fun _ => none
  | .more n next => (recvAll (n + 1)).andThen fun bytes => readerOf (next bytes)

section

variable {α γ : Type}

theorem readerOf_andThen (d : Demand UInt8 α) (f : α → Demand UInt8 γ) :
    readerOf (d.andThen f) = (readerOf d).andThen fun a => readerOf (f a) := by
  induction d with
  | ret a => rfl
  | fail => rfl
  | more n next ih =>
    simp only [Demand.andThen, readerOf, Reader.andThen_assoc]
    congr 1
    funext bytes
    exact ih bytes

theorem readerOf_exactly (n : Nat) : readerOf (Demand.exactly n) = recvAll n := by
  cases n with
  | zero =>
    funext inc
    cases inc <;> rfl
  | succ n =>
    funext inc
    simp only [Demand.exactly, readerOf, Reader.andThen, Reader.ret]
    cases recvAll (n + 1) inc <;> rfl

theorem readerOf_require (c : Prop) [Decidable c] (d : Demand UInt8 α) :
    readerOf (d.require c) = Reader.require c (readerOf d) := by
  unfold Demand.require
  split
  next hc => rw [Reader.require_pos hc]
  next hc =>
    funext inc
    rw [Reader.require_neg hc]
    rfl

end

theorem readerOf_awaitLength (h1 : UInt8) : readerOf (awaitLength h1) = recvLength h1 := by
  unfold awaitLength recvLength
  dsimp only
  split
  · rw [readerOf_andThen, readerOf_exactly]
    rfl
  · split
    · rw [readerOf_andThen, readerOf_exactly]
      rfl
    · rfl

theorem readerOf_awaitBody (malloc : Bool) (opcode masked : UInt8) (len : UInt64) :
    readerOf (awaitBody malloc opcode masked len) = recvBody malloc opcode masked len := by
  have hite : ∀ (c : Prop) [Decidable c] (n : Nat) (bytes : Bytes),
      readerOf (if c then Demand.exactly n else .ret bytes) = if c then recvAll n else .ret bytes := by
    intro c _ n bytes
    split
    · exact readerOf_exactly n
    · rfl
  unfold awaitBody recvBody
  simp only [readerOf_require, readerOf_andThen, hite]
  rfl

theorem readerOf_awaitFrame (malloc : Bool) : readerOf (awaitFrame malloc) = wsRecvFrame malloc := by
  unfold awaitFrame wsRecvFrame
  simp only [readerOf_andThen, readerOf_exactly, readerOf_awaitLength, readerOf_awaitBody]

/-- What the reader makes of bytes that come all at once, it makes of them as they come. -/
theorem accepts_of_reads {α : Type} {d : Demand UInt8 α} {w : Bytes} {a : α}
    (h : (readerOf d).Reads w a) : d.Accepts w a := by
  have hwhole : ∀ v : Bytes, delivered (putBack v ([] : Incoming UInt8)) = v := fun v => by
    rw [delivered_putBack, delivered, List.append_nil]
  induction d generalizing w with
  | ret b =>
    obtain ⟨rest, hrest, hdelivered⟩ := h (putBack w []) [] (by rw [hwhole, List.append_nil])
    cases hrest
    rw [hwhole] at hdelivered
    exact ⟨hdelivered, rfl⟩
  | fail =>
    obtain ⟨rest, hrest, -⟩ := h (putBack w []) [] (by rw [hwhole, List.append_nil])
    cases hrest
  | more n next ih =>
    obtain ⟨rest, hrest, -⟩ := h (putBack w []) [] (by rw [hwhole, List.append_nil])
    cases hgot : recvAll (n + 1) (putBack w []) with
    | none =>
      rw [readerOf, Reader.andThen_of_none hgot] at hrest
      cases hrest
    | some p =>
      obtain ⟨got, rest'⟩ := p
      obtain ⟨hlen, hw⟩ := recvAll_some hgot
      rw [hwhole] at hw
      refine ⟨by rw [hw, List.length_append]; omega, ?_⟩
      rw [hw, ← hlen, List.take_left, List.drop_left]
      apply ih
      intro inc t hinc
      obtain ⟨rest, hread, hdelivered⟩ := h (.data got :: inc) t (by
        cases got with
        | nil => cases hlen
        | cons b got => rw [hw, delivered, hinc, List.append_assoc])
      have hrecv : recvAll (n + 1) (.data got :: inc) = some (got, inc) := by
        have hempty : got.isEmpty = false := by
          cases got with
          | nil => cases hlen
          | cons b got => rfl
        rw [recvAll, hempty, if_neg Bool.false_ne_true, if_pos (Nat.le_of_eq hlen), hlen,
          Nat.sub_self, recvAll]
        dsimp only
        rw [List.append_nil]
      rw [readerOf, Reader.andThen_of_eq hrecv] at hread
      exact ⟨rest, hread, hdelivered⟩

/-! ## The property and its condition -/

/-- The frames handed out are those whose bytes have all been received. -/
def HandedOut (ms : List Message) (wires : List Bytes) (received : Bytes) (frames : List Frame) :
    Prop :=
  ∃ n u, frames = (ms.take n).map Message.frame ∧ received = (wires.take n).flatten ++ u ∧
    (u = [] ∨ ∃ w, wires[n]? = some w ∧ u <+: w ∧ u ≠ w)

/-- `client_thread` is in its loop, and not about to leave it. -/
def ThreadPc.inLoop : ThreadPc → Bool
  | reply _ _ .loop | sending _ _ _ .loop | head _ | recv _ | receiving _ _ => true
  | _ => false

/-- The client is on the list, alive and with its descriptor open. -/
def Server.Keeps (s : Server) (k : ConnId) : Prop :=
  ∃ p n, p ∈ s.store.clients ∧ s.store.fds n = some k ∧ s.store.load p = ⟨n, true, k⟩

/-- While the server runs, a session whose handshake is completed goes on. -/
def Receiving.GoesOn (g : Receiving) (k : ConnId) (ms : List Message) (wires : List Bytes) :
    Prop :=
  g.server.running = true → (g.server.outcome k).completed? = true →
    (g.server.thread k).inLoop = true ∧ g.server.Keeps k ∧
      HandedOut ms wires (g.received k) (g.frames k)

/-- The client sends the frames, its side stays open, the buffers are there, and every
record is left to its owner. -/
def Receiving.Regular (k : ConnId) (wires : List Bytes) (g : Receiving) :
    ReceivingAction → Prop
  | .server a => g.server.respectsOwner a = true
  | .call j malloc => j = k → malloc = true
  | .recv j answer _ => j = k →
    match answer with
    | .data bytes => g.received k ++ bytes <+: wires.flatten
    | .eintr | .timeout => True
    | .closed | .error => False

instance decidableRegular (k : ConnId) (wires : List Bytes) (g : Receiving) :
    ∀ a, Decidable (g.Regular k wires a)
  | .server a => inferInstanceAs (Decidable (g.server.respectsOwner a = true))
  | .call j malloc => inferInstanceAs (Decidable (j = k → malloc = true))
  | .recv j (.data bytes) _ =>
    inferInstanceAs (Decidable (j = k → g.received k ++ bytes <+: wires.flatten))
  | .recv j .eintr _ | .recv j .timeout _ => inferInstanceAs (Decidable (j = k → True))
  | .recv j .closed _ | .recv j .error _ => inferInstanceAs (Decidable (j = k → False))

/-- A `recv` in the frame loop of the connection runs into its timeout. -/
def ReceivingAction.timesOut (k : ConnId) : ReceivingAction → Bool
  | .recv j .timeout _ => j = k
  | _ => false

/-- While the server runs, no `recv` of the connection runs into its timeout. -/
def Receiving.InTime (k : ConnId) (g : Receiving) (a : ReceivingAction) : Prop :=
  g.server.running = true → a.timesOut k = false

instance decidableInTime (k : ConnId) (g : Receiving) (a : ReceivingAction) :
    Decidable (g.InTime k a) :=
  inferInstanceAs (Decidable (g.server.running = true → a.timesOut k = false))

/-! ## What has been received -/

/-- So much of the next frame has been received, and the reader wants the rest of it. -/
def Wants (m : Message) (w u : Bytes) (d : Demand UInt8 Frame) : Prop :=
  ∃ v, v ≠ [] ∧ w = u ++ v ∧ d.Accepts v m.frame

/-- The reader stands somewhere in the stream, behind so many whole frames; `idle` says that the
next one has not begun. Within a frame it wants exactly the rest of it, and behind the last
frame there is nothing to be within. -/
inductive Standing (ms : List Message) (wires : List Bytes) (received : Bytes)
    (frames : List Frame) (d : Demand UInt8 Frame) : Bool → Prop
  | between {n : Nat} (hframes : frames = (ms.take n).map Message.frame)
      (hreceived : received = (wires.take n).flatten) :
      Standing ms wires received frames d true
  | within {n : Nat} {u : Bytes} (hframes : frames = (ms.take n).map Message.frame)
      (hreceived : received = (wires.take n).flatten ++ u)
      (hnext : ∀ m w, ms[n]? = some m → wires[n]? = some w → Wants m w u d)
      (hend : ms.length ≤ n → u = []) :
      Standing ms wires received frames d false

section

variable {ms : List Message} {wires : List Bytes} {received : Bytes} {frames : List Frame}
  {d : Demand UInt8 Frame} {idle : Bool}

theorem Standing.handedOut (h : Standing ms wires received frames d idle)
    (hlen : ms.length = wires.length) : HandedOut ms wires received frames := by
  cases h with
  | @between n hframes hreceived =>
    exact ⟨n, [], hframes, by rw [hreceived, List.append_nil], Or.inl rfl⟩
  | @within n u hframes hreceived hnext hend =>
    refine ⟨n, u, hframes, hreceived, ?_⟩
    by_cases hn : n < ms.length
    · have hn' : n < wires.length := by omega
      obtain ⟨v, hv, hw, -⟩ := hnext _ _ (List.getElem?_eq_getElem hn) (List.getElem?_eq_getElem hn')
      refine Or.inr ⟨_, List.getElem?_eq_getElem hn', ⟨v, hw.symm⟩, fun e => hv ?_⟩
      rw [← e] at hw
      exact List.append_right_eq_self.mp hw.symm
    · exact Or.inl (hend (Nat.not_lt.mp hn))

theorem Encoded.wants {m : Message} {w : Bytes} (h : Encoded m w)
    (hm : m.payload.length ≤ wsMaxPayload) : Wants m w [] (awaitFrame true) := by
  have haccepts : (awaitFrame true).Accepts w m.frame :=
    accepts_of_reads (by rw [readerOf_awaitFrame]; exact h.reads hm)
  refine ⟨w, ?_, rfl, haccepts⟩
  rintro rfl
  exact absurd haccepts.1 (Nat.not_lt_zero 1)

/-- `ws_recv_frame` is called. -/
theorem Standing.call (hms : ∀ m ∈ ms, m.payload.length ≤ wsMaxPayload)
    (hwires : List.Forall₂ Encoded ms wires) (h : Standing ms wires received frames d true) :
    Standing ms wires received frames (awaitFrame true) false := by
  cases h with
  | @between n hframes hreceived =>
    refine .within hframes (by rw [hreceived, List.append_nil]) ?_ fun _ => rfl
    intro m w hm hw
    obtain ⟨hn, rfl⟩ := List.getElem?_eq_some_iff.mp hm
    obtain ⟨hn', rfl⟩ := List.getElem?_eq_some_iff.mp hw
    exact (hwires.get hn hn').wants (hms _ (List.getElem_mem hn))

/-- A piece of the stream is a piece of the frame the reader is in. -/
theorem Standing.data {bytes : Bytes} (hlen : ms.length = wires.length)
    (h : Standing ms wires received frames d false) (hne : bytes ≠ [])
    (hroom : bytes.length ≤ d.room) (hstream : received ++ bytes <+: wires.flatten) :
    match d.feed bytes with
    | .ret f => f ∈ ms.map Message.frame ∧
        Standing ms wires (received ++ bytes) (frames ++ [f]) d true
    | .fail => False
    | .more n next => Standing ms wires (received ++ bytes) frames (.more n next) false := by
  cases h with
  | @within n u hframes hreceived hnext hend =>
    have hn : n < ms.length := by
      by_contra hn
      rw [hreceived, hend (Nat.not_lt.mp hn), List.append_nil,
        List.take_of_length_le (by omega)] at hstream
      exact hne (List.append_right_eq_self.mp
        (hstream.eq_of_length_le (by rw [List.length_append]; omega)))
    have hn' : n < wires.length := by omega
    obtain ⟨v, -, hw, haccepts⟩ :=
      hnext _ _ (List.getElem?_eq_getElem hn) (List.getElem?_eq_getElem hn')
    obtain ⟨v', rfl⟩ : bytes <+: v := by
      have hsplit : wires.flatten =
          (wires.take n).flatten ++ (u ++ (v ++ (wires.drop (n + 1)).flatten)) := by
        rw [← List.append_assoc u, ← hw, ← List.flatten_cons, ← List.drop_eq_getElem_cons hn',
          ← List.flatten_append, List.take_append_drop]
      rw [hreceived, hsplit, List.append_assoc, List.prefix_append_right_inj,
        List.prefix_append_right_inj] at hstream
      exact List.prefix_of_prefix_length_le hstream (List.prefix_append v _)
        (hroom.trans haccepts.room_le)
    have hfed := haccepts.feed hroom
    have htake : wires.take (n + 1) = wires.take n ++ [wires[n]] := List.take_append_getElem hn' |>.symm
    have htake' : ms.take (n + 1) = ms.take n ++ [ms[n]] := List.take_append_getElem hn |>.symm
    cases hd : d.feed bytes with
    | ret f =>
      rw [hd] at hfed
      obtain ⟨rfl, rfl⟩ := hfed
      refine ⟨List.mem_map_of_mem (List.getElem_mem hn), .between (n := n + 1) ?_ ?_⟩
      · rw [hframes, htake', List.map_append, List.map_singleton]
      · rw [hreceived, htake, List.flatten_append, List.flatten_singleton, hw, List.append_nil,
          List.append_assoc]
    | fail =>
      rw [hd] at hfed
      exact hfed
    | more k next =>
      rw [hd] at hfed
      refine .within hframes (u := u ++ bytes) (by rw [hreceived, List.append_assoc]) ?_
        fun hle => absurd hn (Nat.not_lt.mpr hle)
      intro m w hm' hw'
      obtain rfl := Option.some.inj ((List.getElem?_eq_getElem hn).symm.trans hm')
      obtain rfl := Option.some.inj ((List.getElem?_eq_getElem hn').symm.trans hw')
      refine ⟨v', ?_, by rw [hw, List.append_assoc], hfed⟩
      rintro rfl
      exact absurd hfed.1 (Nat.not_lt_zero k)

end

/-! ## What the steps of the server leave alone -/

def ThreadPc.receives : ThreadPc → Bool
  | receiving _ _ => true
  | _ => false

namespace Server

variable {s s' : Server} {k j : ConnId} {c : Choice}

/-- A thread settles the handshake of its own connection only. -/
theorem threadStep_kept (h : s.threadStep j c = some s') :
    s'.running = s.running ∧ ∀ i, i ≠ j → s'.outcome i = s.outcome i := by
  have hself : ∀ {m : Server}, m.running = s.running → m.outcome = s.outcome →
      m.running = s.running ∧ ∀ i, i ≠ j → m.outcome i = s.outcome i :=
    fun hr ho => ⟨hr, fun i _ => by rw [ho]⟩
  have hsettled : ∀ {m : Server} {o : Outcome}, m.running = s.running →
      m.outcome = Function.update s.outcome j o →
      m.running = s.running ∧ ∀ i, i ≠ j → m.outcome i = s.outcome i :=
    fun hr ho => ⟨hr, fun i hi => by rw [ho, Function.update_of_ne hi]⟩
  unfold threadStep at h
  split at h
  case h_3 =>
    split at h
    · cases h
    · split at h
      · cases h
        exact hself rfl rfl
      · cases h
        exact hsettled rfl rfl
      · split at h
        · cases h
          exact hsettled rfl rfl
        · cases h
          exact hself rfl rfl
  case h_5 =>
    split at h
    · cases h
    · obtain ⟨m, hm, rfl⟩ := Option.map_eq_some_iff.mp h
      obtain ⟨i, -, rfl⟩ := Option.map_eq_some_iff.mp hm
      split
      · exact hsettled rfl rfl
      · exact hself rfl rfl
  case h_8 =>
    split at h
    · cases h
    · obtain ⟨m, hm, rfl⟩ := Option.map_eq_some_iff.mp h
      obtain ⟨i, -, rfl⟩ := Option.map_eq_some_iff.mp hm
      split <;> exact hself rfl rfl
  case h_2 | h_4 =>
    cases h
    exact hsettled rfl rfl
  case h_15 =>
    split at h
    · cases h
      exact hself rfl rfl
    · cases h
  case h_17 => cases h
  all_goals
    cases h
    exact hself rfl rfl

theorem acceptStep_kept (h : s.acceptStep c = some s') :
    s'.running = s.running ∧ s'.outcome = s.outcome := by
  unfold acceptStep at h
  split at h
  all_goals
    first
    | cases h
      exact ⟨rfl, rfl⟩
    | split at h
      all_goals
        cases h
        try exact ⟨rfl, rfl⟩
    | cases h

theorem bcastStep_kept (h : s.bcastStep c = some s') :
    s'.running = s.running ∧ s'.outcome = s.outcome := by
  unfold bcastStep at h
  split at h
  · cases h
  · split at h
    case h_5 =>
      split at h
      · cases h
      · obtain ⟨m, hm, rfl⟩ := Option.map_eq_some_iff.mp h
        obtain ⟨i, -, rfl⟩ := Option.map_eq_some_iff.mp hm
        split <;> exact ⟨rfl, rfl⟩
    case h_11 => cases h
    all_goals
      cases h
      exact ⟨rfl, rfl⟩

theorem stopStep_kept (h : s.stopStep c = some s') :
    (s'.running = true → s.running = true) ∧ s'.outcome = s.outcome ∧ s'.thread = s.thread := by
  unfold stopStep at h
  split at h
  case h_1 =>
    cases h
    exact ⟨fun hr => Bool.noConfusion hr, rfl, rfl⟩
  case h_2 | h_3 =>
    split at h
    · cases h
      exact ⟨id, rfl, rfl⟩
    · cases h
  case h_9 => cases h
  all_goals
    cases h
    exact ⟨id, rfl, rfl⟩

/-- Outside of `ws_recv_frame` a thread enters its loop with its handshake, and stays in
it while the server runs and the record is alive. -/
theorem threadStep_loop (h : s.threadStep k c = some s')
    (hin : s.inRecvFrame (.thread k c) = false)
    (hhead : ∀ p, s.thread k = .head p → (s.running && (s.store.load p).alive) = true)
    (hloop : (s.outcome k).completed? = (s.thread k).inLoop) :
    (s'.outcome k).completed? = (s'.thread k).inLoop ∧
      (s'.thread k).receives = (s.thread k).receives := by
  have hto : ∀ {m : Server} {pc pc' : ThreadPc}, s.thread k = pc → m.outcome = s.outcome →
      m.thread = Function.update s.thread k pc' → pc'.inLoop = pc.inLoop →
      pc'.receives = pc.receives →
      (m.outcome k).completed? = (m.thread k).inLoop ∧
        (m.thread k).receives = (s.thread k).receives := by
    intro m pc pc' hp ho ht hl hrec
    rw [ho, ht, Function.update_self, hloop, hp]
    exact ⟨hl.symm, hrec⟩
  have hsettle : ∀ {m : Server} {o : Outcome} {pc pc' : ThreadPc}, s.thread k = pc →
      m.outcome = Function.update s.outcome k o → m.thread = Function.update s.thread k pc' →
      o.completed? = pc'.inLoop → pc'.receives = pc.receives →
      (m.outcome k).completed? = (m.thread k).inLoop ∧
        (m.thread k).receives = (s.thread k).receives := by
    intro m o pc pc' hp ho ht hl hrec
    rw [ho, ht, Function.update_self, Function.update_self, hp]
    exact ⟨hl, hrec⟩
  unfold threadStep at h
  unfold inRecvFrame at hin
  dsimp only at hin
  split at h
  next p hp =>
    cases h
    exact hto hp rfl rfl rfl rfl
  next hp =>
    cases h
    exact hsettle hp rfl rfl rfl rfl
  next hp =>
    split at h
    · cases h
    · split at h
      · cases h
        exact hto hp rfl rfl rfl rfl
      · cases h
        exact hsettle hp rfl rfl rfl rfl
      · split at h
        · cases h
          exact hsettle hp rfl rfl rfl rfl
        · cases h
          exact hto hp rfl rfl rfl rfl
  next hp =>
    cases h
    exact hsettle hp rfl rfl rfl rfl
  next hp =>
    split at h
    · cases h
    · obtain ⟨m, hm, rfl⟩ := Option.map_eq_some_iff.mp h
      obtain ⟨i, -, rfl⟩ := Option.map_eq_some_iff.mp hm
      split
      · exact hsettle hp rfl rfl rfl rfl
      · exact hto hp rfl rfl rfl rfl
  next p frame after hp =>
    cases h
    cases after with
    | loop | leave => exact hto hp rfl rfl rfl rfl
  next p fd out after hp =>
    cases h
    cases after with
    | loop | leave => exact hto hp rfl rfl rfl rfl
  next p fd out after w hp =>
    split at h
    · cases h
    · obtain ⟨m, hm, rfl⟩ := Option.map_eq_some_iff.mp h
      obtain ⟨i, -, rfl⟩ := Option.map_eq_some_iff.mp hm
      cases after with
      | loop | leave => split <;> exact hto hp rfl rfl rfl rfl
  next p hp =>
    cases h
    rw [hhead p hp]
    exact hto hp rfl rfl rfl rfl
  next hp =>
    rw [hp] at hin
    cases hin
  next hp =>
    rw [hp] at hin
    cases hin
  next hp =>
    rw [hp] at hin
    cases hin
  next hp =>
    cases h
    exact hto hp rfl rfl rfl rfl
  next hp =>
    cases h
    exact hto hp rfl rfl rfl rfl
  next hp =>
    split at h
    · cases h
      exact hto hp rfl rfl rfl rfl
    · cases h
  next hp =>
    cases h
    exact hto hp rfl rfl rfl rfl
  next => cases h

/-- After any frame but a close frame the thread stays in its loop. -/
theorem threadStep_frame {p : Ptr} {fd : Fd} {opcode : UInt8} {payload : Bytes}
    {db : Option HistoryQuery} (hp : s.thread k = .receiving p fd) (hopcode : opcode ≠ 0x8)
    (h : s.threadStep k (.frame opcode payload db) = some s') :
    ∃ pc, s' = s.setThread k pc ∧ pc.inLoop = true ∧ pc.receives = false := by
  have hleave : ∀ frame, clientReply db opcode payload ≠ .sendAndLeave frame := by
    intro frame hr
    unfold clientReply at hr
    rw [if_neg hopcode] at hr
    repeat' split at hr
    all_goals cases hr
  simp only [threadStep, hp, Option.some.injEq] at h
  subst h
  refine ⟨_, rfl, ?_⟩
  cases hr : clientReply db opcode payload with
  | send frame | ignore => exact ⟨rfl, rfl⟩
  | sendAndLeave frame => exact absurd hr (hleave frame)

/-- The thread of a connection is moved by its own steps, and begun by `accept_thread`. -/
theorem step_thread {a : Action} {st : ConnId → Stage} (howned : Owned st s)
    (h : s.step a = some s') (ha : ∀ c, a ≠ .thread k c) :
    s'.thread k = s.thread k ∨
      (s.thread k).inLoop = false ∧ (s.thread k).receives = false ∧ ∃ p, s'.thread k = .start p := by
  cases a with
  | accept c =>
    obtain ⟨-, hevent⟩ := acceptStep_event h
    cases hevent with
    | quiet hthread | opened hthread | allocated _ hthread => exact Or.inl (by rw [hthread])
    | @created p n hp hthread =>
      rw [hthread, Function.update_apply]
      split
      next hk =>
        have habsent := howned.held k (by rw [hp, hk]; rfl)
        rw [habsent]
        exact Or.inr ⟨rfl, rfl, p, rfl⟩
      next => exact Or.inl rfl
  | thread j c =>
    obtain ⟨pc, hto, -⟩ := threadStep_event h
    have hk : k ≠ j := fun e => ha c (by rw [e])
    rw [hto.thread, Function.update_of_ne hk]
    exact Or.inl rfl
  | bcastBegin msg =>
    obtain ⟨-, rfl⟩ := bcastBegin_eq_some h
    exact Or.inl rfl
  | bcast c =>
    exact Or.inl (by rw [(bcastStep_event h).1.thread])
  | stop c => exact Or.inl (by rw [(stopStep_kept h).2.2])

theorem step_kept {a : Action} (h : s.step a = some s') :
    (s'.running = true → s.running = true) ∧
      ((∀ c, a ≠ .thread k c) → s'.outcome k = s.outcome k) := by
  cases a with
  | accept c =>
    obtain ⟨hr, ho⟩ := acceptStep_kept h
    exact ⟨hr ▸ id, fun _ => by rw [ho]⟩
  | thread j c =>
    obtain ⟨hr, ho⟩ := threadStep_kept h
    exact ⟨hr ▸ id, fun ha => ho k fun e => ha c (by rw [e])⟩
  | bcastBegin msg =>
    obtain ⟨-, rfl⟩ := bcastBegin_eq_some h
    exact ⟨id, fun _ => rfl⟩
  | bcast c =>
    obtain ⟨hr, ho⟩ := bcastStep_kept h
    exact ⟨hr ▸ id, fun _ => by rw [ho]⟩
  | stop c =>
    obtain ⟨hr, ho, -⟩ := stopStep_kept h
    exact ⟨hr, fun _ => by rw [ho]⟩

end Server

/-! ## What a `recv` leaves alone -/

namespace Receiving

variable {g g' : Receiving} {j : ConnId} {answer : RecvAnswer} {db : Option HistoryQuery}

/-- What an answer to a `recv` leads to. -/
theorem recvStep_cases (h : g.recvStep j answer db = some g') :
    ∃ p fd, g.server.thread j = .receiving p fd ∧
      ((∃ bytes, answer = .data bytes ∧ bytes ≠ [] ∧ bytes.length ≤ (g.reader j).room ∧
          g.dataStep j bytes db = some g') ∨
        (answer = .eintr ∧ g' = g) ∨
        ((answer = .timeout ∨ answer = .closed ∨ answer = .error) ∧ g.fail j = some g')) := by
  unfold recvStep at h
  split at h
  next p fd hp =>
    refine ⟨p, fd, hp, ?_⟩
    cases answer with
    | data bytes =>
      dsimp only at h
      split at h
      · cases h
      next hpiece =>
        rw [not_or, Nat.not_lt] at hpiece
        exact Or.inl ⟨bytes, rfl, hpiece.1, hpiece.2, h⟩
    | eintr => exact Or.inr (Or.inl ⟨rfl, (Option.some.inj h).symm⟩)
    | timeout => exact Or.inr (Or.inr ⟨Or.inl rfl, h⟩)
    | closed => exact Or.inr (Or.inr ⟨Or.inr (Or.inl rfl), h⟩)
    | error => exact Or.inr (Or.inr ⟨Or.inr (Or.inr rfl), h⟩)
  next => cases h

/-- A `recv` moves its own thread at most, and leaves the other connections alone. -/
theorem recvStep_frame (h : g.recvStep j answer db = some g') :
    (g'.server = g.server ∨ ∃ c, g.server.threadStep j c = some g'.server) ∧
      ∀ k, k ≠ j → g'.received k = g.received k ∧ g'.frames k = g.frames k ∧
        g'.reader k = g.reader k := by
  obtain ⟨p, fd, -, ⟨bytes, -, -, -, h⟩ | ⟨-, rfl⟩ | ⟨-, h⟩⟩ := recvStep_cases h
  · unfold dataStep at h
    dsimp only at h
    split at h
    · obtain ⟨s', hs', rfl⟩ := Option.map_eq_some_iff.mp h
      exact ⟨Or.inr ⟨_, hs'⟩, fun k hk =>
        ⟨Function.update_of_ne hk _ _, Function.update_of_ne hk _ _, rfl⟩⟩
    · obtain ⟨s', hs', rfl⟩ := Option.map_eq_some_iff.mp h
      exact ⟨Or.inr ⟨_, hs'⟩, fun k hk => ⟨Function.update_of_ne hk _ _, rfl, rfl⟩⟩
    · cases h
      exact ⟨Or.inl rfl, fun k hk =>
        ⟨Function.update_of_ne hk _ _, rfl, Function.update_of_ne hk _ _⟩⟩
  · exact ⟨Or.inl rfl, fun _ _ => ⟨rfl, rfl, rfl⟩⟩
  · obtain ⟨s', hs', rfl⟩ := Option.map_eq_some_iff.mp h
    exact ⟨Or.inr ⟨_, hs'⟩, fun _ _ => ⟨rfl, rfl, rfl⟩⟩

end Receiving

/-! ## The session -/

/-- The invariant of the connection `k` of a server that runs: its records are in order, its
thread is in the loop exactly if the handshake is completed, and its reader stands where the
bytes that have come take it. -/
structure InSession (k : ConnId) (ms : List Message) (wires : List Bytes) (g : Receiving) :
    Prop where
  owned : ∃ st, Owned st g.server
  loop : (g.server.outcome k).completed? = (g.server.thread k).inLoop
  standing : Standing ms wires (g.received k) (g.frames k) (g.reader k)
    (!(g.server.thread k).receives)

namespace InSession

variable {k : ConnId} {ms : List Message} {wires : List Bytes} {g g' : Receiving}

theorem init : InSession k ms wires Receiving.init where
  owned := ⟨_, Owned.init⟩
  loop := rfl
  standing := .between (n := 0) rfl rfl

/-- A client in its loop is on the list. -/
theorem keeps (h : InSession k ms wires g) (hloop : (g.server.thread k).inLoop = true) :
    g.server.Keeps k := by
  obtain ⟨st, howned⟩ := h.owned
  have hlisted : ∃ p : Ptr, p.conn = k ∧ ∃ n, st k = .listed p.addr n := by
    have hat := howned.threads k
    cases hp : g.server.thread k with
    | reply p _ _ | head p | recv p =>
      rw [hp] at hat
      exact ⟨p, hat⟩
    | sending p fd _ _ | receiving p fd =>
      rw [hp] at hat
      exact ⟨p, hat.1, fd, hat.2⟩
    | _ =>
      rw [hp] at hloop
      cases hloop
  obtain ⟨p, rfl, n, hstage⟩ := hlisted
  have haddr : (st p.conn).addr? = some p.addr := hstage ▸ rfl
  obtain ⟨c, hcell, hconn⟩ := howned.store.live haddr
  obtain ⟨hfd, halive⟩ := howned.store.fields p.addr c hcell
  rw [hconn, hstage] at hfd halive
  have honlist : (st p.conn).onList? = some p.addr := by rw [hstage]; rfl
  refine ⟨p, n, (howned.store.clients.2 p).mpr honlist,
    howned.store.fds_of_stage (by rw [hstage]; rfl), ?_⟩
  rw [Store.load, hcell, Cell.content, ← hconn, ← hfd n rfl, ← show c.alive = true from halive]

theorem goesOn (h : InSession k ms wires g) (hlen : ms.length = wires.length) :
    g.GoesOn k ms wires := by
  intro _ hdone
  rw [h.loop] at hdone
  exact ⟨hdone, h.keeps hdone, h.standing.handedOut hlen⟩

/-- A step that is not one of `ws_recv_frame`. -/
theorem server {a : Action} {s' : Server} (h : InSession k ms wires g)
    (hguard : g.server.respectsOwner a = true) (hin : g.server.inRecvFrame a = false)
    (hrun : s'.running = true) (hstep : g.server.step a = some s') :
    InSession k ms wires { g with server := s' } := by
  obtain ⟨st, howned⟩ := h.owned
  obtain ⟨st', -, howned'⟩ := howned.step hguard hstep
  obtain ⟨hrunning, houtcome⟩ := Server.step_kept (k := k) hstep
  have hrecv : (s'.outcome k).completed? = (s'.thread k).inLoop ∧
      (s'.thread k).receives = (g.server.thread k).receives := by
    by_cases ha : ∃ c, a = .thread k c
    · obtain ⟨c, rfl⟩ := ha
      apply Server.threadStep_loop hstep hin _ h.loop
      intro p hp
      have hat := howned.threads k
      rw [hp] at hat
      obtain ⟨rfl, n, hstage⟩ := hat
      rw [hrunning hrun, howned.store.load_alive (by rw [hstage]; rfl), hstage]
      rfl
    · have ha' : ∀ c, a ≠ .thread k c := fun c e => ha ⟨c, e⟩
      rcases Server.step_thread howned hstep ha' with hsame | ⟨hloop, hreceives, p, hstart⟩
      · rw [houtcome ha', hsame]
        exact ⟨h.loop, rfl⟩
      · rw [houtcome ha', h.loop, hstart, hloop, hreceives]
        exact ⟨rfl, rfl⟩
  exact ⟨⟨st', howned'⟩, hrecv.1, by rw [hrecv.2]; exact h.standing⟩

/-- A step of `ws_recv_frame` on the connection `j`. -/
theorem owned_inRecvFrame {j : ConnId} {c : Choice} {s' : Server} (h : InSession k ms wires g)
    (hin : g.server.inRecvFrame (.thread j c) = true) (hstep : g.server.threadStep j c = some s') :
    ∃ st, Owned st s' := by
  obtain ⟨st, howned⟩ := h.owned
  have hguard : g.server.respectsOwner (.thread j c) = true := by
    unfold Server.inRecvFrame at hin
    unfold Server.respectsOwner
    dsimp only at hin ⊢
    split
    next hfree _ =>
      rw [hfree] at hin
      cases hin
    next => rfl
  obtain ⟨st', -, howned'⟩ := howned.thread_step hguard hstep
  exact ⟨st', howned'⟩

/-- `ws_recv_frame` on another connection. -/
theorem other {j : ConnId} {c : Choice} (h : InSession k ms wires g) (hj : k ≠ j)
    (hin : g.server.inRecvFrame (.thread j c) = true)
    (hstep : g.server.threadStep j c = some g'.server) (hreceived : g'.received k = g.received k)
    (hframes : g'.frames k = g.frames k) (hreader : g'.reader k = g.reader k) :
    InSession k ms wires g' := by
  obtain ⟨pc, hto, -⟩ := Server.threadStep_event hstep
  have hthread : g'.server.thread k = g.server.thread k := by
    rw [hto.thread, Function.update_of_ne hj]
  refine ⟨h.owned_inRecvFrame hin hstep, ?_, ?_⟩
  · rw [hthread, (Server.threadStep_kept hstep).2 k hj]
    exact h.loop
  · rw [hthread, hreceived, hframes, hreader]
    exact h.standing

/-- The thread of the connection goes on in its loop. -/
theorem own {c : Choice} {pc : ThreadPc} (h : InSession k ms wires g)
    (hin : g.server.inRecvFrame (.thread k c) = true)
    (hstep : g.server.threadStep k c = some g'.server)
    (houtcome : g'.server.outcome = g.server.outcome)
    (hthread : g'.server.thread = Function.update g.server.thread k pc) (hloop : pc.inLoop = true)
    (hstanding : Standing ms wires (g'.received k) (g'.frames k) (g'.reader k) (!pc.receives)) :
    InSession k ms wires g' := by
  have hbefore : (g.server.thread k).inLoop = true := by
    unfold Server.inRecvFrame at hin
    dsimp only at hin
    split at hin
    next hp => rw [hp]; rfl
    next hp => rw [hp]; rfl
    next => cases hin
  refine ⟨h.owned_inRecvFrame hin hstep, ?_, ?_⟩
  · rw [houtcome, h.loop, hbefore, hthread, Function.update_self, hloop]
  · rw [hthread, Function.update_self]
    exact hstanding

theorem call {j : ConnId} {malloc : Bool} (hms : ∀ m ∈ ms, m.payload.length ≤ wsMaxPayload)
    (hwires : List.Forall₂ Encoded ms wires) (h : InSession k ms wires g)
    (hmalloc : j = k → malloc = true) (hstep : g.callStep j malloc = some g') :
    InSession k ms wires g' := by
  unfold Receiving.callStep at hstep
  split at hstep
  next p hp =>
    obtain ⟨s', hs', rfl⟩ := Option.map_eq_some_iff.mp hstep
    have hin : g.server.inRecvFrame (.thread j .go) = true := by
      simp only [Server.inRecvFrame, hp]
    by_cases hj : k = j
    · obtain rfl := hj
      obtain rfl := hmalloc rfl
      have hstanding := h.standing
      rw [hp] at hstanding
      have hgo := hs'
      simp only [Server.threadStep, hp, Option.some.injEq] at hgo
      subst hgo
      refine h.own hin hs' rfl rfl rfl ?_
      dsimp only
      rw [Function.update_self]
      exact hstanding.call hms hwires
    · exact h.other hj hin hs' rfl rfl (Function.update_of_ne hj _ _)
  next => cases hstep

theorem data {bytes : Bytes} {db : Option HistoryQuery} {p : Ptr} {fd : Fd}
    (hlen : ms.length = wires.length) (hopcode : ∀ m ∈ ms, m.frame.opcode ≠ 0x8)
    (h : InSession k ms wires g) (hp : g.server.thread k = .receiving p fd) (hne : bytes ≠ [])
    (hroom : bytes.length ≤ (g.reader k).room) (hstream : g.received k ++ bytes <+: wires.flatten)
    (hstep : g.dataStep k bytes db = some g') : InSession k ms wires g' := by
  have hin : ∀ c, g.server.inRecvFrame (.thread k c) = true := fun c => by
    simp only [Server.inRecvFrame, hp]
  have hstanding := h.standing
  rw [hp] at hstanding
  have hdata := hstanding.data hlen hne hroom hstream
  unfold Receiving.dataStep at hstep
  dsimp only at hstep
  cases hfeed : (g.reader k).feed bytes with
  | ret f =>
    rw [hfeed] at hstep hdata
    obtain ⟨hmem, hbetween⟩ := hdata
    obtain ⟨m, hm, rfl⟩ := List.mem_map.mp hmem
    obtain ⟨s', hs', rfl⟩ := Option.map_eq_some_iff.mp hstep
    obtain ⟨pc, rfl, hloop, hreceives⟩ := Server.threadStep_frame hp (hopcode m hm) hs'
    refine h.own (hin _) hs' rfl rfl hloop ?_
    dsimp only
    rw [hreceives, Function.update_self, Function.update_self]
    exact hbetween
  | fail =>
    rw [hfeed] at hdata
    cases hdata
  | more n next =>
    rw [hfeed] at hstep hdata
    cases hstep
    refine ⟨h.owned, h.loop, ?_⟩
    dsimp only
    rw [hp, Function.update_self, Function.update_self]
    exact hdata

/-- `recv` on another connection. -/
theorem other_recv {j : ConnId} {answer : RecvAnswer} {db : Option HistoryQuery}
    (h : InSession k ms wires g) (hj : k ≠ j) (hstep : g.recvStep j answer db = some g') :
    InSession k ms wires g' := by
  obtain ⟨p, fd, hp, -⟩ := Receiving.recvStep_cases hstep
  obtain ⟨hserver, hothers⟩ := Receiving.recvStep_frame hstep
  obtain ⟨hreceived, hframes, hreader⟩ := hothers k hj
  obtain hserver | ⟨c, hs'⟩ := hserver
  · refine ⟨?_, ?_, ?_⟩
    · rw [hserver]
      exact h.owned
    · rw [hserver]
      exact h.loop
    · rw [hserver, hreceived, hframes, hreader]
      exact h.standing
  · have hin : g.server.inRecvFrame (.thread j c) = true := by
      simp only [Server.inRecvFrame, hp]
    exact h.other hj hin hs' hreceived hframes hreader

theorem recv {answer : RecvAnswer} {db : Option HistoryQuery} (hlen : ms.length = wires.length)
    (hopcode : ∀ m ∈ ms, m.frame.opcode ≠ 0x8) (h : InSession k ms wires g)
    (hregular : g.Regular k wires (.recv k answer db)) (htime : answer ≠ .timeout)
    (hstep : g.recvStep k answer db = some g') : InSession k ms wires g' := by
  have hanswer := hregular rfl
  obtain ⟨p, fd, hp, ⟨bytes, rfl, hne, hroom, hdata⟩ | ⟨-, rfl⟩ | ⟨hfails, -⟩⟩ :=
    Receiving.recvStep_cases hstep
  · exact h.data hlen hopcode hp hne hroom hanswer hdata
  · exact h
  · obtain rfl | rfl | rfl := hfails
    · exact absurd rfl htime
    · cases hanswer
    · cases hanswer

end InSession

theorem Receiving.running_of_step {g g' : Receiving} {a : ReceivingAction}
    (h : g.step a = some g') (hrun : g'.server.running = true) : g.server.running = true := by
  have hthread : ∀ {j : ConnId} {c : Choice} {s' : Server}, g.server.threadStep j c = some s' →
      s'.running = true → g.server.running = true := by
    intro j c s' hs' hr
    rwa [(Server.threadStep_kept hs').1] at hr
  cases a with
  | server a =>
    replace h : (if g.server.inRecvFrame a then none
      else (g.server.step a).map fun server => { g with server }) = some g' := h
    split at h
    · cases h
    · obtain ⟨s', hs', rfl⟩ := Option.map_eq_some_iff.mp h
      exact (Server.step_kept (k := 0) hs').1 hrun
  | call j malloc =>
    replace h : g.callStep j malloc = some g' := h
    unfold callStep at h
    split at h
    · obtain ⟨s', hs', rfl⟩ := Option.map_eq_some_iff.mp h
      exact hthread hs' hrun
    · cases h
  | recv j answer db =>
    obtain ⟨hserver | ⟨c, hs'⟩, -⟩ := recvStep_frame h
    · exact hserver ▸ hrun
    · exact hthread hs' hrun

section

variable {k : ConnId} {ms : List Message} {wires : List Bytes} {g g' : Receiving}

theorem InSession.step {a : ReceivingAction} (hms : ∀ m ∈ ms, m.payload.length ≤ wsMaxPayload)
    (hwires : List.Forall₂ Encoded ms wires) (hopcode : ∀ m ∈ ms, m.frame.opcode ≠ 0x8)
    (h : InSession k ms wires g) (hregular : g.Regular k wires a) (htime : g.InTime k a)
    (hrun : g'.server.running = true) (hstep : g.step a = some g') : InSession k ms wires g' := by
  have hbefore := Receiving.running_of_step hstep hrun
  cases a with
  | server a =>
    replace hstep : (if g.server.inRecvFrame a then none
      else (g.server.step a).map fun server => { g with server }) = some g' := hstep
    split at hstep
    · cases hstep
    next hin =>
      obtain ⟨s', hs', rfl⟩ := Option.map_eq_some_iff.mp hstep
      exact h.server hregular (by simpa using hin) hrun hs'
  | call j malloc => exact h.call hms hwires hregular hstep
  | recv j answer db =>
    by_cases hj : k = j
    · obtain rfl := hj
      have hanswer : answer ≠ .timeout := by
        rintro rfl
        simpa [ReceivingAction.timesOut] using htime hbefore
      exact h.recv hwires.length_eq hopcode hregular hanswer hstep
    · exact h.other_recv hj hstep

/-- A timeout takes the thread of the connection out of its loop. -/
theorem InSession.timeout {a : ReceivingAction} (h : InSession k ms wires g)
    (ha : a.timesOut k = true) (hstep : g.step a = some g') (hgoes : g'.GoesOn k ms wires) :
    g.server.running = false := by
  obtain ⟨db, rfl⟩ : ∃ db, a = .recv k .timeout db := by
    unfold ReceivingAction.timesOut at ha
    split at ha
    next db => exact ⟨db, by rw [of_decide_eq_true ha]⟩
    next => cases ha
  replace hstep : g.recvStep k .timeout db = some g' := hstep
  obtain ⟨p, fd, hp, ⟨bytes, hdata, -⟩ | ⟨heintr, -⟩ | ⟨-, hfail⟩⟩ :=
    Receiving.recvStep_cases hstep
  · cases hdata
  · cases heintr
  · obtain ⟨s', hs', rfl⟩ := Option.map_eq_some_iff.mp hfail
    simp only [Server.threadStep, hp, Option.some.injEq] at hs'
    subst hs'
    rw [Bool.eq_false_iff]
    intro hrun
    have hdone : (g.server.outcome k).completed? = true := by rw [h.loop, hp]; rfl
    have hloop := (hgoes hrun hdone).1
    dsimp only [Server.setThread] at hloop
    rw [Function.update_self] at hloop
    cases hloop

end

/-- **A session lasts until a receive times out.** The client of connection `k` sends the frames
`wires`, one for each message of `ms`, none of them a close frame; its side stays open, buffers
can be allocated, and every record is left to its owner (`hregular`). Everything else is any run
of the whole server. In all states the run reaches, as long as the server runs and the handshake
is completed, the thread is in its loop, the client is on the list with its descriptor open, and
every frame whose bytes have arrived has been handed out; and that is so exactly if no `recv` of
the connection runs into its timeout while the server runs. To `recv_all` the timeout is the end
of the connection, like any other error. -/
theorem session_goes_on_iff {k : ConnId} {ms : List Message} {wires : List Bytes}
    {as : List ReceivingAction} {g : Receiving} (hms : ∀ m ∈ ms, m.payload.length ≤ wsMaxPayload)
    (hwires : List.Forall₂ Encoded ms wires) (hopcode : ∀ m ∈ ms, m.frame.opcode ≠ 0x8)
    (hregular : Guarded Receiving.step (Receiving.Regular k wires) .init as)
    (hrun : exec Receiving.step .init as = some g) :
    Guarded Receiving.step (Receiving.InTime k) .init as ↔
      ∀ pre post m, as = pre ++ post → exec Receiving.step .init pre = some m →
        m.GoesOn k ms wires := by
  apply guarded_iff_forall_reached (I := fun g => g.server.running = true → InSession k ms wires g)
    _ _ _ (fun _ => InSession.init) hregular hrun
  · intro m hm hr
    exact (hm hr).goesOn hwires.length_eq hr
  · intro m a m' hm hreg htime hstep hr
    exact (hm (Receiving.running_of_step hstep hr)).step hms hwires hopcode hreg htime hr hstep
  · intro m a m' hm hreg hstep hgoes hr
    rw [Bool.eq_false_iff]
    intro hlate
    have hstopped := (hm hr).timeout hlate hstep hgoes
    rw [hstopped] at hr
    cases hr

/-- A client up to its first wait for a frame. -/
def connected : List ReceivingAction :=
  [.server (.accept .go), .server (.accept (.opened 5)), .server (.accept (.allocated 0)),
   .server (.accept .go), .server (.accept .go), .server (.accept .go), .server (.thread 0 .go),
   .server (.thread 0 (.chunk handshakeRequest)), .server (.thread 0 (.sent 129)),
   .server (.thread 0 .go), .server (.thread 0 (.sent 2)), .server (.thread 0 (.sent 35)),
   .server (.thread 0 .go), .call 0 true]

/-- A frame of one byte comes in four pieces. -/
def oneFrame : List ReceivingAction :=
  connected ++ [.recv 0 (.data [0x82]) none, .recv 0 .eintr none, .recv 0 (.data [0x81]) none,
    .recv 0 (.data [1, 2, 3, 4]) none, .recv 0 (.data [6]) none]

def oneByte : Message := ⟨[7], .client 2 (some fun i => UInt8.ofNat (i + 1))⟩

theorem one_frame_goes_on :
    ∃ g, exec Receiving.step .init oneFrame = some g ∧ g.frames 0 = [⟨2, [7]⟩] ∧
      g.GoesOn 0 [oneByte] [[0x82, 0x81, 1, 2, 3, 4, 6]] := by
  have hrun : (exec Receiving.step .init oneFrame).map (fun g => g.frames 0) =
      some [⟨2, [7]⟩] := by decide +kernel
  obtain ⟨g, hg, hframes⟩ := Option.map_eq_some_iff.mp hrun
  refine ⟨g, hg, hframes, (session_goes_on_iff ?_ ?_ ?_ ?_ hg).mp ?_ oneFrame [] g ?_ hg⟩
  · decide
  · exact .cons (by decide : _ = encodeFrame _ _ _) .nil
  · decide
  · decide +kernel
  · decide +kernel
  · rw [List.append_nil]

/-- Nothing comes for a minute. -/
def silentClient : List ReceivingAction :=
  connected ++ [.recv 0 .timeout none, .server (.thread 0 .go), .server (.thread 0 .go),
    .server (.thread 0 .go), .server (.thread 0 .go)]

/-- A client that only listens is closed and taken off the list. -/
theorem silent_client_removed :
    Guarded Receiving.step (Receiving.Regular 0 []) .init silentClient ∧
      ∃ g, exec Receiving.step .init silentClient = some g ∧ g.server.store.clients = [] ∧
        g.server.store.closes 0 = 1 ∧ ¬ g.GoesOn 0 [] [] := by
  refine ⟨by decide +kernel, ?_⟩
  have hrun : (exec Receiving.step .init silentClient).map
      (fun g => (g.server.running, (g.server.outcome 0).completed?,
        (g.server.thread 0).inLoop, g.server.store.clients, g.server.store.closes 0)) =
        some (true, true, false, [], 1) := by decide +kernel
  obtain ⟨g, hg, hend⟩ := Option.map_eq_some_iff.mp hrun
  simp only [Prod.mk.injEq] at hend
  obtain ⟨hrunning, hdone, hloop, hclients, hcloses⟩ := hend
  refine ⟨g, hg, hclients, hcloses, fun h => ?_⟩
  rw [(h hrunning hdone).1] at hloop
  cases hloop

end TelemetryTestbed.WebSocket
