import TelemetryTestbed.Laws.WebSocket.Limit
import TelemetryTestbed.Lib.JsonSpelling

/-!
# Which texts are history requests

`is_history_request` and `json_find_int` search the text of a request where its members
are meant. What they find is decided by the strings of the text, in the order and the
spelling in which they stand there, wherever in the object that is: `type` counts at
the end of any string, `history` in any later one, and `"last"` stands for the number
behind the next colon. The reply is the one the members ask for where the two agree.
-/

namespace TelemetryTestbed.WebSocket

open TelemetryTestbed.Lib TelemetryTestbed.Lib.Json Persistence

/-! ## What the members ask for -/

/-- The member with a name; where the name stands there more than once, the last one. -/
def member (k : Bytes) (ms : List (Bytes × Json)) : Option Json :=
  (ms.filter fun m => m.1 = k).getLast?.map Prod.snd

/-- The integer a number is. -/
def integer? : Json → Option Int
  | .num mant exp =>
    if 0 ≤ exp then some (mant * 10 ^ exp.toNat)
    else if mant % 10 ^ (-exp).toNat = 0 then some (mant / 10 ^ (-exp).toNat)
    else none
  | _ => none

/-- The member `type` is the string `history`. -/
def asksHistory (ms : List (Bytes × Json)) : Bool :=
  match member (ascii "type") ms with
  | some (.str s) => s = ascii "history"
  | _ => false

/-- The limit of the member `last`. -/
def memberLimit (ms : List (Bytes × Json)) : Nat :=
  (((member (ascii "last") ms).bind integer?).map rowLimit).getD 300

/-- The reply to a request for so many rows. -/
def historyReply (answer : Option (Nat → Option Bytes)) (limit : Nat) : Reply :=
  match answer with
  | none => .send (wsSendText dbNotAvailable)
  | some rows =>
    match rows limit with
    | some json => .send (wsSendText json)
    | none => .send (wsSendText historyQueryFailed)

/-- Whatever the database has, the object gets the reply that its members ask for. -/
def RightReply (text : Bytes) (ms : List (Bytes × Json)) : Prop :=
  ∀ answer : Option (Nat → Option Bytes),
    clientReply (answer.map fun rows last => rows (historyLimit (Int32.ofInt last))) 0x1 text =
      if asksHistory ms then historyReply answer (memberLimit ms) else .ignore

/-! ## What the strings of the text say -/

/-- A string of the text holds the word `history`. -/
def MentionsHistory (text : Bytes) : Prop := ∃ l ∈ spellings text, ascii "history" <:+: l.1

/-- The first string that ends in the quoted word. -/
def firstEnding (w text : Bytes) : Option (Bytes × Bytes) :=
  (spellings text).find? fun l => EndsQuoted w l.1

/-- Behind the first string that ends in `"type` there is one that holds `history`; or,
where none ends so, `history` stands behind the first `type` that a string holds. -/
def NamesHistory (text : Bytes) : Prop :=
  match firstEnding (ascii "type") text with
  | some l => MentionsHistory l.2
  | none =>
    match (spellings text).find? fun l => ascii "type" <:+: l.1 with
    | some l => InOrder (ascii "type") (ascii "history") l.1 ∨ MentionsHistory l.2
    | none => False

/-- The limit of the number that stands behind the first colon, behind the first string
that ends in `"last`. -/
def namedLimit (text : Bytes) : Nat :=
  (((firstEnding (ascii "last") text).bind fun l => strchr l.2 58).bind
    fun p => (readInteger (p.drop 1)).map rowLimit).getD 300

variable {text : Bytes}

theorem isWord_type : IsWord (ascii "type") where
  nonempty := List.cons_ne_nil _ _
  quote := by decide
  backslash := by decide
  behind := forall_mem_of_all rfl

theorem isWord_last : IsWord (ascii "last") where
  nonempty := List.cons_ne_nil _ _
  quote := by decide
  backslash := by decide
  behind := forall_mem_of_all rfl

theorem isInner_type : IsInner (ascii "type") where
  quote := by decide
  inner := ⟨121, by decide, rfl⟩

theorem isInner_history : IsInner (ascii "history") where
  quote := by decide
  inner := ⟨104, by decide, rfl⟩

theorem mentionsHistory_iff (h : Pieces text) :
    ascii "history" <:+: text ↔ MentionsHistory text := infix_iff_spelled isInner_history h

/-- `is_history_request` reads the strings of the text. -/
theorem isHistoryRequest_iff (h : Pieces text) : isHistoryRequest text = true ↔ NamesHistory text := by
  have hquoted : ascii "\"type\"" = quoted (ascii "type") := by decide
  have hhistory : ascii "history" = 104 :: ascii "istory" := by decide
  unfold isHistoryRequest NamesHistory firstEnding
  rw [hquoted, strstr_quoted isWord_type h]
  cases hfirst : (spellings text).find? fun l => EndsQuoted (ascii "type") l.1 with
  | some l =>
    have hl : Pieces l.2 := h.behind (List.mem_of_find?_eq_some hfirst)
    rw [Option.map_some, Option.some_or]
    dsimp only
    rw [isSome_strstr_iff, ← mentionsHistory_iff hl]
    constructor
    · rw [hhistory]
      exact infix_of_infix_append (by decide)
    · exact fun hin => hin.trans (List.suffix_append _ _).isInfix
  | none =>
    rw [Option.map_none, Option.none_or, strstr_spelled isInner_type h]
    cases hinner : (spellings text).find? fun l => ascii "type" <:+: l.1 with
    | none => simp
    | some l =>
      have hl : Pieces l.2 := h.behind (List.mem_of_find?_eq_some hinner)
      have hin : ascii "type" <:+: l.1 := by simpa using List.find?_some hinner
      obtain ⟨p, hp⟩ := Option.isSome_iff_exists.mp (isSome_strstr_iff.mpr hin)
      rw [Option.bind_some, hp, Option.map_some]
      dsimp only
      rw [isSome_strstr_iff, infix_append_cons_iff isInner_history.quote, mentionsHistory_iff hl,
        hhistory, infix_strstr_iff hp (by decide)]

/-- `json_find_int` and the clamps read the number behind the first `"last"`. -/
theorem requestLimit_eq_namedLimit (h : Pieces text) : requestLimit text = namedLimit text := by
  have hquoted : lastKey = quoted (ascii "last") := by decide
  have hcolon : ∀ r : Bytes, strchr (quoted (ascii "last") ++ r) 58 = strchr r 58 := by
    intro r
    rfl
  rw [requestLimit_eq, behindColon, hquoted, strstr_quoted isWord_last h]
  unfold namedLimit firstEnding
  cases (spellings text).find? fun l => EndsQuoted (ascii "last") l.1 with
  | none => rfl
  | some l =>
    rw [Option.map_some, Option.bind_some, Option.bind_some, hcolon]
    cases strchr l.2 58 with
    | none => rfl
    | some p => rfl

/-! ## The reply -/

theorem clientReply_eq (h : Pieces text) (answer : Option (Nat → Option Bytes)) :
    clientReply (answer.map fun rows last => rows (historyLimit (Int32.ofInt last))) 0x1 text =
      if isHistoryRequest text then historyReply answer (requestLimit text) else .ignore := by
  have hcstr : cstr text = text := cstr_eq_self h.zero_notMem
  unfold clientReply
  rw [if_neg (by decide), if_neg (by decide), if_neg (by decide), if_neg (by decide), hcstr]
  cases answer with
  | none => rfl
  | some rows => rfl

theorem historyReply_ne_ignore (answer : Option (Nat → Option Bytes)) (limit : Nat) :
    historyReply answer limit ≠ .ignore := by
  unfold historyReply
  split
  · exact Reply.noConfusion
  · split <;> exact Reply.noConfusion

/-- A database that has an answer to requests for one number of rows only tells them apart. -/
theorem historyReply_injective {limit limit' : Nat}
    (h : ∀ answer, historyReply answer limit = historyReply answer limit') : limit = limit' := by
  by_contra hne
  have hreply := h (some fun n => if n = limit then some [] else none)
  simp only [historyReply, if_pos, if_neg (Ne.symm hne)] at hreply
  exact absurd hreply (by decide)

/-- **When the reply is the one the members ask for.** `text` is a payload that
`ws_recv_frame` has delivered to `client_thread`, so one unfragmented frame of at most
`WS_MAX_PAYLOAD` bytes, and it parses as an object with the members `ms`. `RightReply` says
that, whatever the database answers, a history is sent exactly if the members ask for one,
and then for the number of rows they name. That holds exactly if the two readings of the
text agree: `NamesHistory` and `namedLimit` are what `is_history_request` and `json_find_int`
find, told of the strings of the text in the order in which they stand there, and
`asksHistory` and `memberLimit` are what the members say. Any text inside a string and any
nested member can make them differ (`wrong_reply`). -/
theorem rightReply_iff {ms : List (Bytes × Json)} (h : parse text = some (.obj ms)) :
    RightReply text ms ↔
      (asksHistory ms = true ↔ NamesHistory text) ∧
        (asksHistory ms = true → namedLimit text = memberLimit ms) := by
  have hpieces := pieces_of_parse h
  rw [← isHistoryRequest_iff hpieces, ← requestLimit_eq_namedLimit hpieces]
  unfold RightReply
  simp only [clientReply_eq hpieces]
  cases isHistoryRequest text <;> cases asksHistory ms
  · simp
  · simpa using ⟨none, (historyReply_ne_ignore none _).symm⟩
  · simpa using ⟨none, historyReply_ne_ignore none _⟩
  · simpa using ⟨historyReply_injective, fun hlimit answer => by rw [hlimit]⟩

/-- The request of the page for a hundred rows. -/
theorem rightReply_hundred :
    ∃ ms, parse (uiRequest 100) = some (.obj ms) ∧ RightReply (uiRequest 100) ms := by
  have hparse : parse (uiRequest 100) =
      some (.obj [(ascii "type", .str (ascii "history")), (ascii "last", .num 100 0)]) := rfl
  have hnamed : NamesHistory (uiRequest 100) :=
    (isHistoryRequest_iff (pieces_of_parse hparse)).mp (by decide)
  refine ⟨_, hparse, (rightReply_iff hparse).mpr ⟨⟨fun _ => hnamed, fun _ => ?_⟩, fun _ => ?_⟩⟩
  · decide
  · decide

/-- A status with a note is answered with a history. -/
def notedStatus : Bytes := ascii "\x7b\"type\":\"status\",\"note\":\"history\"\x7d"

/-- The limit of a history request is read from an object within it. -/
def nestedLast : Bytes :=
  ascii "\x7b\"type\":\"history\",\"page\":\x7b\"last\":5\x7d,\"last\":100\x7d"

theorem wrong_reply :
    (∃ ms, parse notedStatus = some (.obj ms) ∧ asksHistory ms = false ∧
      ¬ RightReply notedStatus ms) ∧
    ∃ ms, parse nestedLast = some (.obj ms) ∧ asksHistory ms = true ∧
      ¬ RightReply nestedLast ms := by
  constructor
  · refine ⟨[(ascii "type", .str (ascii "status")), (ascii "note", .str (ascii "history"))], rfl,
      by decide, fun h => ?_⟩
    have hreply := h none
    revert hreply
    decide
  · refine ⟨[(ascii "type", .str (ascii "history")), (ascii "page", .obj [(ascii "last", .num 5 0)]),
      (ascii "last", .num 100 0)], rfl, by decide, fun h => ?_⟩
    have hreply := h (some fun n => if n = 5 then some [] else none)
    revert hreply
    decide

end TelemetryTestbed.WebSocket
