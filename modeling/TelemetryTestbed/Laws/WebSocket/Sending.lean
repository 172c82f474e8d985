import TelemetryTestbed.Lib.Channel
import TelemetryTestbed.Laws.WebSocket.HandshakeFirst

/-!
# One frame on its way out

When the frames on a wire are intact, which steps send apart, and what is left of one
call of `ws_send_text` or `ws_send_control` after each `send` (`Sending.Ok`). The
frames of the server and the replies of the frame loop are the ones that go out.

The guards of the runs are here, since several laws share them. Each of them is decidable, so
a run that is written down can be checked against it.
-/

namespace TelemetryTestbed.WebSocket

open TelemetryTestbed.Lib

/-! ## The setting, the condition and the property -/

/-- The frames among what has been written, piece by piece. -/
def framePieces (wire : List Chunk) : List (FrameCall × Bytes) :=
  wire.filterMap fun
    | .http _ => none
    | .frame call bytes => some (call, bytes)

/-- The `send_all` calls of a frame that the server sends. -/
def SentFrame (frame : List Bytes) : Prop :=
  (∃ msg, frame = wsSendText msg) ∨ ∃ opcode payload, frame = wsSendControl opcode payload

/-- Whole frames and then a part of one, each of them a frame of the server. -/
structure FramesIntact (wire : List Chunk) : Prop where
  framed : Framed FrameCall.bytes (framePieces wire)
  frames : ∀ f ∈ framePieces wire, ∃ frame, SentFrame frame ∧ f.1.bytes = frame.flatten

/-- The frame bytes of such a wire are whole frames and then a prefix of one. -/
theorem FramesIntact.bytes {wire : List Chunk} (h : FramesIntact wire) :
    ∃ (whole : List (List Bytes)) (part : Bytes),
      ((framePieces wire).map Prod.snd).flatten = (whole.map List.flatten).flatten ++ part ∧
      (∀ frame ∈ whole, SentFrame frame) ∧
      (part = [] ∨ ∃ frame, SentFrame frame ∧ part <+: frame.flatten) := by
  obtain ⟨calls, part, hbytes, hmem, hpart⟩ := h.framed.bytes
  have hframe : ∀ call ∈ (framePieces wire).map Prod.fst,
      ∃ frame, SentFrame frame ∧ call.bytes = frame.flatten := by
    intro call hcall
    obtain ⟨f, hf, rfl⟩ := List.mem_map.mp hcall
    exact h.frames f hf
  obtain ⟨whole, hwhole, hflat⟩ : ∃ whole : List (List Bytes),
      (∀ frame ∈ whole, SentFrame frame) ∧
        calls.map FrameCall.bytes = whole.map List.flatten := by
    clear hbytes
    induction calls with
    | nil => exact ⟨[], fun _ hm => absurd hm List.not_mem_nil, rfl⟩
    | cons call calls ih =>
      obtain ⟨whole, hwhole, hflat⟩ := ih fun c hc => hmem c (List.mem_cons_of_mem _ hc)
      obtain ⟨frame, hsent, hcall⟩ := hframe call (hmem call List.mem_cons_self)
      refine ⟨frame :: whole, fun x hx => ?_, ?_⟩
      · rcases List.mem_cons.mp hx with rfl | hx
        · exact hsent
        · exact hwhole x hx
      · rw [List.map_cons, List.map_cons, hcall, hflat]
  refine ⟨whole, part, by rw [hbytes, hflat], hwhole, hpart.imp_right ?_⟩
  rintro ⟨call, hcall, hpre⟩
  obtain ⟨frame, hsent, hbytes'⟩ := hframe call hcall
  exact ⟨frame, hsent, hbytes' ▸ hpre⟩

def Server.FramesIntact (s : Server) : Prop :=
  ∀ k, WebSocket.FramesIntact (s.wire k)

/-- No `send` of a frame fails. -/
def Server.sendsSucceed (s : Server) : Action → Bool
  | .thread k .failed =>
    match s.thread k with
    | .sending _ _ _ _ => false
    | _ => true
  | _ => true

/-- The setting: every `send` succeeds, and a connection is written to by its own
thread and, after the handshake, by broadcasts. -/
def Server.sharedByTwo (s : Server) (a : Action) : Prop :=
  s.waitsForHandshake a ∧ s.sendsSucceed a = true

instance (s : Server) (a : Action) : Decidable (s.sharedByTwo a) :=
  inferInstanceAs (Decidable (_ ∧ _))

def ThreadPc.out? : ThreadPc → Option Sending
  | .sending _ _ out _ => some out
  | _ => none

def BcastPc.out? : BcastPc → Option Sending
  | .sending _ _ _ _ out => some out
  | _ => none

/-- The frame the thread of a connection has partly out. -/
def Server.threadOpen (s : Server) (k : ConnId) : Option Sending :=
  (s.thread k).out?.filter Sending.midFrame

/-- The frame a broadcast has partly out on a connection. -/
def Server.bcastOpen (s : Server) (k : ConnId) : Option Sending :=
  match s.bcast with
  | some b => if b.pc.target = some k then b.pc.out?.filter Sending.midFrame else none
  | none => none

/-- The first byte of a frame goes out only where the other party has no frame
partly out on the connection. -/
def Server.sendsApart (s : Server) : Action → Bool
  | .thread k (.sent _) =>
    match s.thread k with
    | .sending _ _ out _ => out.midFrame || (s.bcastOpen k).isNone
    | _ => true
  | .bcast (.sent _) =>
    match s.bcast with
    | some ⟨_, .sending _ p _ _ out⟩ => out.midFrame || (s.threadOpen p.conn).isNone
    | _ => true
  | _ => true

/-! ## Sending one frame -/

/-- A call in the middle of its frame: nothing is lost, and there is something
left to send. -/
structure Sending.Ok (o : Sending) (next : Nat) : Prop where
  frame : ∃ frame, SentFrame frame ∧ o.call.bytes = frame.flatten
  whole : o.sent ++ o.buf ++ o.rest.flatten = o.call.bytes
  buf : o.buf ≠ []
  rest : ∀ b ∈ o.rest, b ≠ []
  id : o.call.id < next

/-- Where the reader of the channel stands for this call. -/
def Sending.position (o : Sending) : Option (FrameCall × Bytes) :=
  openOf FrameCall.bytes o.call o.sent

namespace Sending.Ok

variable {o : Sending} {n : Nat}

theorem mono {n' : Nat} (h : o.Ok n) (hn : n ≤ n') : o.Ok n' :=
  ⟨h.frame, h.whole, h.buf, h.rest, Nat.lt_of_lt_of_le h.id hn⟩

theorem sent_ne (h : o.Ok n) : o.sent ≠ o.call.bytes := by
  intro e
  have hlen := congrArg List.length h.whole
  rw [← e, List.length_append, List.length_append] at hlen
  have := List.length_pos_iff.mpr h.buf
  omega

theorem position_eq (h : o.Ok n) :
    o.position = if o.midFrame then some (o.call, o.sent) else none := by
  unfold Sending.position openOf Sending.midFrame
  by_cases hsent : o.sent = []
  · rw [if_pos (Or.inl hsent), hsent]
    rfl
  · rw [if_neg fun hor => hor.elim hsent h.sent_ne, if_pos (decide_eq_true hsent)]

theorem take_ne_nil {w : Nat} (h : o.Ok n) (hw : ¬ (w = 0 ∨ o.buf.length < w)) :
    o.buf.take w ≠ [] := by
  intro e
  have hlen := congrArg List.length e
  rw [List.length_take, List.length_nil] at hlen
  have := List.length_pos_iff.mpr h.buf
  omega

/-- A `send` of part of the buffer, on the channel. -/
theorem follow_send {w : Nat} (h : o.Ok n) (hw : ¬ (w = 0 ∨ o.buf.length < w)) :
    follow FrameCall.bytes o.position (o.call, o.buf.take w) =
      some (openOf FrameCall.bytes o.call (o.sent ++ o.buf.take w)) := by
  have hwhole : o.sent ++ o.buf.take w ++ (o.buf.drop w ++ o.rest.flatten) = o.call.bytes := by
    rw [List.append_assoc, ← List.append_assoc (o.buf.take w), List.take_append_drop,
      ← List.append_assoc]
    exact h.whole
  exact follow_own FrameCall.bytes rfl hwhole (h.take_ne_nil hw)

/-- What is left after a `send` is again such a call, and where nothing is left
the frame is out. -/
theorem advance {w : Nat} (h : o.Ok n) :
    match o.advance w with
    | some o' => o'.Ok n ∧ o'.call = o.call ∧ o'.sent = o.sent ++ o.buf.take w
    | none => o.sent ++ o.buf.take w = o.call.bytes := by
  have hwhole : o.sent ++ o.buf.take w ++ o.buf.drop w ++ o.rest.flatten = o.call.bytes := by
    rw [List.append_assoc o.sent, List.take_append_drop]
    exact h.whole
  unfold Sending.advance
  by_cases hdrop : o.buf.drop w = []
  · rw [if_pos hdrop]
    rw [hdrop, List.append_nil] at hwhole
    cases hrest : o.rest with
    | nil =>
      rw [hrest, List.flatten_nil, List.append_nil] at hwhole
      exact hwhole
    | cons b rest =>
      rw [hrest, List.flatten_cons, ← List.append_assoc] at hwhole
      have hmem := h.rest
      rw [hrest] at hmem
      exact ⟨⟨h.frame, hwhole, hmem b List.mem_cons_self,
        fun b' hb' => hmem b' (List.mem_cons_of_mem _ hb'), h.id⟩, rfl, rfl⟩
  · rw [if_neg hdrop]
    exact ⟨⟨h.frame, hwhole, hdrop, h.rest, h.id⟩, rfl, rfl⟩

/-- Where the reader stands after the `send`. -/
theorem advance_position {w : Nat} (h : o.Ok n) (hw : ¬ (w = 0 ∨ o.buf.length < w)) :
    ((o.advance w).filter Sending.midFrame).map (fun o => (o.call, o.sent)) =
      openOf FrameCall.bytes o.call (o.sent ++ o.buf.take w) := by
  have hadv := h.advance (w := w)
  cases he : o.advance w with
  | none =>
    rw [he] at hadv
    rw [show o.sent ++ o.buf.take w = o.call.bytes from hadv, openOf_whole]
    rfl
  | some o' =>
    rw [he] at hadv
    obtain ⟨hok, hcall, hsent⟩ := hadv
    have hne : o'.sent ≠ [] := by
      rw [hsent]
      exact List.append_ne_nil_of_right_ne_nil _ (h.take_ne_nil hw)
    have hmid : o'.midFrame = true := decide_eq_true hne
    have hpos := hok.position_eq
    rw [if_pos hmid, Sending.position] at hpos
    rw [← hsent, ← hcall, hpos, Option.filter_some, if_pos hmid]
    rfl

end Sending.Ok

theorem SentFrame.ne_nil {frame : List Bytes} (h : SentFrame frame) : frame ≠ [] := by
  rcases h with ⟨msg, rfl⟩ | ⟨opcode, payload, rfl⟩
  · exact List.cons_ne_nil _ _
  · exact List.cons_ne_nil _ _

theorem SentFrame.pieces {frame : List Bytes} (h : SentFrame frame) :
    ∀ b ∈ frame, b ≠ [] := by
  rcases h with ⟨msg, rfl⟩ | ⟨opcode, payload, rfl⟩
  · exact wsSendText_pieces msg
  · exact wsSendControl_pieces opcode payload

/-- A call that has just begun. -/
theorem beginFrame_ok {s : Server} {frame : List Bytes} (h : SentFrame frame) :
    (s.beginFrame frame).Ok (s.nextCall + 1) := by
  obtain ⟨b, rest, rfl⟩ := List.exists_cons_of_ne_nil h.ne_nil
  refine ⟨⟨_, h, rfl⟩, ?_, h.pieces b List.mem_cons_self,
    fun b' hb' => h.pieces b' (List.mem_cons_of_mem _ hb'), Nat.lt_succ_self _⟩
  show [] ++ b ++ rest.flatten = (b :: rest).flatten
  rw [List.nil_append, List.flatten_cons]

/-- Every reply of the frame loop is a frame. -/
theorem sentFrame_clientReply (db : Option HistoryQuery) (opcode : UInt8) (payload : Bytes) :
    match clientReply db opcode payload with
    | .send frame | .sendAndLeave frame => SentFrame frame
    | .ignore => True := by
  unfold clientReply
  split_ifs
  · exact Or.inr ⟨_, _, rfl⟩
  · exact Or.inr ⟨_, _, rfl⟩
  · trivial
  · trivial
  · cases db with
    | none => exact Or.inl ⟨_, rfl⟩
    | some query =>
      dsimp only
      cases query (jsonFindInt (cstr payload) (ascii "\"last\"") 300) with
      | none => exact Or.inl ⟨_, rfl⟩
      | some json => exact Or.inl ⟨_, rfl⟩
  · trivial

theorem framePieces_concat (wire : List Chunk) (chunk : Chunk) :
    framePieces (wire ++ [chunk]) = framePieces wire ++ framePieces [chunk] :=
  List.filterMap_append

end TelemetryTestbed.WebSocket
