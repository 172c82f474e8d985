import TelemetryTestbed.Laws.WebSocket.Codec
import TelemetryTestbed.Laws.WebSocket.Headers

/-!
# How the stream is cut

Two runs on the same bytes. The request is answered alike however the bytes
arrive, because `read_http_request` stops at some point behind the head and
nothing behind the head counts (`readHttpRequestFrom_spec`). What it has read
beyond the head is gone, though: the frame reader starts where the `recv` ended
that completed the head, so the frames are those behind the head exactly when no
`recv` brings the end of the head and more (`session_segmentation`).

A stream is a list of events, and two of them are compared by what they deliver in the end.
The proof that the condition is needed takes a run in which the head ends within a piece and
shows that the bytes behind it, which were delivered, are in no frame.
-/

namespace TelemetryTestbed.WebSocket

open TelemetryTestbed.Lib

/-- The head of the request that a stream begins with, up to its empty line, where
it is complete within the buffer. -/
def requestHead (s : Bytes) : Option Bytes :=
  let seen := cstr (s.take (httpMax - 1))
  (strstr seen (crlf ++ crlf)).map fun p => seen.take (seen.length - p.length + 4)

/-! ## The head of a stream -/

theorem cstr_take (s : Bytes) (m : Nat) : cstr (s.take m) = (cstr s).take m := by
  induction s generalizing m with
  | nil => simp [cstr]
  | cons b s ih =>
    cases m with
    | zero => rfl
    | succ m =>
      have := ih m
      simp only [cstr, List.take_succ_cons, List.takeWhile_cons] at this ⊢
      split
      · rw [List.take_succ_cons, this]
      · rfl

theorem cstr_take_of_le (s : Bytes) {m : Nat} (hm : m ≤ httpMax - 1) :
    cstr (s.take m) = (cstr (s.take (httpMax - 1))).take m := by
  rw [← cstr_take, List.take_take, Nat.min_eq_left hm]

theorem requestHead_spec {s head : Bytes} (h : requestHead s = some head) :
    (∃ u, head = u ++ (crlf ++ crlf)) ∧ (0 : UInt8) ∉ head ∧
      head <+: cstr (s.take (httpMax - 1)) := by
  unfold requestHead at h
  obtain ⟨p, hp, rfl⟩ := Option.map_eq_some_iff.mp h
  obtain ⟨⟨t, ht⟩, u, hu⟩ := strstr_split hp
  have hhead : (cstr (s.take (httpMax - 1))).take
      ((cstr (s.take (httpMax - 1))).length - p.length + 4) = u ++ (crlf ++ crlf) := by
    rw [hu, List.length_append, Nat.add_sub_cancel, ← ht, ← List.append_assoc]
    exact List.take_left' (by rw [List.length_append]; rfl)
  refine ⟨⟨u, hhead⟩, ?_, List.take_prefix _ _⟩
  exact fun h0 => zero_notMem_cstr _ (List.mem_of_mem_take h0)

theorem requestHead_length {s head : Bytes} (h : requestHead s = some head) :
    head.length ≤ httpMax - 1 := by
  obtain ⟨-, -, hpre⟩ := requestHead_spec h
  have hcstr : (cstr (s.take (httpMax - 1))).length ≤ (s.take (httpMax - 1)).length :=
    (List.takeWhile_sublist _).length_le
  rw [List.length_take] at hcstr
  have := hpre.length_le
  omega

theorem requestHead_front {s head : Bytes} (h : requestHead s = some head) : head <+: s := by
  obtain ⟨-, -, hpre⟩ := requestHead_spec h
  exact (hpre.trans (List.takeWhile_prefix _)).trans (List.take_prefix _ _)

/-- The head is complete in the first `m` bytes exactly when its empty line is there. -/
theorem isSome_strstr_take {s : Bytes} {m : Nat} (hm : m ≤ httpMax - 1) :
    (strstr (cstr (s.take m)) (crlf ++ crlf)).isSome ↔
      ∃ head, requestHead s = some head ∧ head.length ≤ m := by
  rw [cstr_take_of_le s hm]
  constructor
  · intro hsome
    obtain ⟨p, hp⟩ := Option.isSome_iff_exists.mp hsome
    obtain ⟨hneedle, u, hu⟩ := strstr_split hp
    have hfour : 4 ≤ p.length := hneedle.length_le
    have hall := strstr_append hp ((cstr (s.take (httpMax - 1))).drop m)
    rw [List.take_append_drop] at hall
    refine ⟨_, by rw [requestHead, hall]; rfl, ?_⟩
    have hlen := congrArg List.length hu
    rw [List.length_append, List.length_take] at hlen
    rw [List.length_take, List.length_append, List.length_drop]
    omega
  · rintro ⟨head, hhead, hle⟩
    obtain ⟨⟨u, hu⟩, -, hpre⟩ := requestHead_spec hhead
    have htake : head <+: (cstr (s.take (httpMax - 1))).take m := List.prefix_take_iff.mpr ⟨hpre, hle⟩
    apply isSome_strstr_of_prefix htake
    have := isSome_strstr_append u (crlf ++ crlf) []
    rwa [List.append_nil, ← hu] at this

/-- What has been read is the head and more. -/
theorem take_of_requestHead {s head : Bytes} {m : Nat} (h : requestHead s = some head)
    (hm : head.length ≤ m) : ∃ x, s.take m = head ++ x := by
  obtain ⟨x, hx⟩ := List.prefix_take_iff.mpr ⟨requestHead_front h, hm⟩
  exact ⟨x, hx.symm⟩

/-! ## Reading the head -/

/-- `read_http_request` reads the head and whatever has arrived behind it. -/
theorem readHttpRequestFrom_spec {inc : Incoming UInt8} {buf : Bytes}
    (hlen : buf.length < httpMax - 1) (hbuf : strstr (cstr buf) (crlf ++ crlf) = none) :
    match requestHead (buf ++ delivered inc) with
    | none => readHttpRequestFrom buf inc = none
    | some head => ∃ m rest,
        readHttpRequestFrom buf inc = some ((buf ++ delivered inc).take m, rest) ∧
        head.length ≤ m ∧ m ≤ httpMax - 1 ∧ m ≤ (buf ++ delivered inc).length ∧
        delivered rest = (buf ++ delivered inc).drop m := by
  have hnone : requestHead (buf ++ []) = none := by
    rw [List.append_nil, requestHead, List.take_of_length_le (Nat.le_of_lt hlen), hbuf]
    rfl
  induction inc generalizing buf with
  | nil =>
    rw [show delivered ([] : Incoming UInt8) = [] from rfl, hnone]
    rfl
  | cons e inc ih =>
    cases e with
    | eintr => exact ih hlen hbuf hnone
    | failed =>
      rw [show delivered (.failed :: inc : Incoming UInt8) = [] from rfl, hnone]
      rfl
    | data bytes =>
      cases bytes with
      | nil =>
        rw [show delivered (.data [] :: inc : Incoming UInt8) = [] from rfl, hnone]
        rfl
      | cons b bs =>
        have hs : buf ++ delivered (.data (b :: bs) :: inc) =
            buf ++ (b :: bs).take (httpMax - 1 - buf.length) ++
              ((b :: bs).drop (httpMax - 1 - buf.length) ++ delivered inc) := by
          rw [List.append_assoc, ← List.append_assoc (List.take _ _), List.take_append_drop]
          rfl
        generalize hchunk : (b :: bs).take (httpMax - 1 - buf.length) = chunk at hs
        generalize hleft : (b :: bs).drop (httpMax - 1 - buf.length) = left at hs
        have hm : (buf ++ chunk).length ≤ httpMax - 1 := by
          rw [List.length_append, ← hchunk, List.length_take]
          omega
        have htake : (buf ++ chunk ++ (left ++ delivered inc)).take (buf ++ chunk).length =
            buf ++ chunk := List.take_left
        have hfound := isSome_strstr_take (s := buf ++ chunk ++ (left ++ delivered inc)) hm
        rw [htake] at hfound
        rw [hs]
        simp only [readHttpRequestFrom, List.isEmpty_cons, Bool.false_eq_true, if_false, hchunk,
          hleft, readHttpRequest]
        by_cases hdone : (strstr (cstr (buf ++ chunk)) (crlf ++ crlf)).isSome
        · obtain ⟨head, hhead, hle⟩ := hfound.mp hdone
          rw [if_pos hdone, hhead]
          refine ⟨(buf ++ chunk).length, putBack left inc, by rw [htake], hle, hm, ?_, ?_⟩
          · exact (List.prefix_append (buf ++ chunk) (left ++ delivered inc)).length_le
          · rw [delivered_putBack, List.drop_left]
        · rw [if_neg hdone]
          by_cases hfull : httpMax - 1 ≤ (buf ++ chunk).length
          · have hno : requestHead (buf ++ chunk ++ (left ++ delivered inc)) = none := by
              cases hh : requestHead (buf ++ chunk ++ (left ++ delivered inc)) with
              | none => rfl
              | some head =>
                exact absurd (hfound.mpr ⟨head, hh,
                  Nat.le_trans (requestHead_length hh) hfull⟩) hdone
            rw [if_pos hfull, hno]
          · rw [if_neg hfull]
            -- There is room left, so the piece is used up.
            have hnil : left = [] := by
              have hroom : ∀ cap n m : Nat, n + min (cap - n) m < cap → m ≤ cap - n := by
                intro cap n m h
                omega
              rw [List.length_append, ← hchunk, List.length_take] at hfull
              rw [← hleft, List.drop_eq_nil_iff]
              exact hroom _ _ _ (Nat.lt_of_not_le hfull)
            have hnext := ih (Nat.lt_of_not_le hfull) (Option.not_isSome_iff_eq_none.mp hdone)
            rw [hnil, List.nil_append]
            apply hnext
            rw [List.append_nil, requestHead, List.take_of_length_le hm,
              Option.not_isSome_iff_eq_none.mp hdone]
            rfl

/-- `read_http_request` from its start. -/
theorem readHttpRequest_spec (inc : Incoming UInt8) :
    match requestHead (delivered inc) with
    | none => readHttpRequestFrom [] inc = none
    | some head => ∃ m rest,
        readHttpRequestFrom [] inc = some ((delivered inc).take m, rest) ∧
        head.length ≤ m ∧ m ≤ httpMax - 1 ∧ m ≤ (delivered inc).length ∧
        delivered rest = (delivered inc).drop m := by
  have hempty : ([] : Bytes).length < httpMax - 1 := by decide
  exact readHttpRequestFrom_spec hempty rfl

/-- Either the buffer is full, or the reading has ended where a `recv` ended. -/
theorem readHttpRequestFrom_cut {inc rest : Incoming UInt8} {buf http : Bytes}
    (hlen : buf.length < httpMax - 1) (h : readHttpRequestFrom buf inc = some (http, rest)) :
    http.length = httpMax - 1 ∨ ∃ pre, inc = pre ++ rest ∧ http = buf ++ delivered pre := by
  induction inc generalizing buf with
  | nil => cases h
  | cons e inc ih =>
    cases e with
    | eintr =>
      rcases ih hlen h with hfull | ⟨pre, hinc, hhttp⟩
      · exact .inl hfull
      · exact .inr ⟨.eintr :: pre, by rw [hinc]; rfl, hhttp⟩
    | failed => cases h
    | data bytes =>
      cases bytes with
      | nil => cases h
      | cons b bs =>
        by_cases hfit : (b :: bs).length ≤ httpMax - 1 - buf.length
        · have htake := List.take_of_length_le hfit
          have hdrop := List.drop_of_length_le hfit
          simp only [readHttpRequestFrom, List.isEmpty_cons, Bool.false_eq_true, if_false, htake,
            hdrop, readHttpRequest] at h
          have hdata : ∀ pre : Incoming UInt8,
              buf ++ (b :: bs) ++ delivered pre = buf ++ delivered (.data (b :: bs) :: pre) :=
            fun pre => List.append_assoc _ _ _
          split at h
          · next hd =>
            cases h
            split at hd
            · cases hd
              refine .inr ⟨[.data (b :: bs)], rfl, ?_⟩
              rw [← hdata, show delivered ([] : Incoming UInt8) = [] from rfl, List.append_nil]
            · split at hd <;> cases hd
          · cases h
          · next hm =>
            split at hm
            · cases hm
            · next hnot =>
              split at hm
              · cases hm
              · next hroom =>
                cases hm
                rcases ih (Nat.lt_of_not_le hroom) h with hfull | ⟨pre, hinc, hhttp⟩
                · exact .inl hfull
                · exact .inr ⟨.data (b :: bs) :: pre, by rw [hinc]; rfl, by rw [hhttp, hdata]⟩
        · have hchunk : (buf ++ (b :: bs).take (httpMax - 1 - buf.length)).length = httpMax - 1 := by
            rw [List.length_append, List.length_take]
            omega
          simp only [readHttpRequestFrom, List.isEmpty_cons, Bool.false_eq_true, if_false,
            readHttpRequest, hchunk, Nat.le_refl, if_true] at h
          split at h
          · next hd =>
            cases h
            split at hd
            · cases hd
              exact .inl hchunk
            · cases hd
          · cases h
          · next hm =>
            split at hm <;> cases hm

/-- What has been read stays read when the stream goes on. -/
theorem readHttpRequestFrom_append {pre rest : Incoming UInt8} {buf http : Bytes}
    (h : readHttpRequestFrom buf pre = some (http, rest)) (post : Incoming UInt8) :
    readHttpRequestFrom buf (pre ++ post) = some (http, rest ++ post) := by
  have hput : ∀ (left : Bytes) (inc : Incoming UInt8),
      putBack left (inc ++ post) = putBack left inc ++ post := by
    intro left inc
    cases left <;> rfl
  induction pre generalizing buf with
  | nil => cases h
  | cons e pre ih =>
    cases e with
    | eintr => exact ih h
    | failed => cases h
    | data bytes =>
      cases bytes with
      | nil => cases h
      | cons b bs =>
        simp only [List.cons_append, readHttpRequestFrom, List.isEmpty_cons, Bool.false_eq_true,
          if_false] at h ⊢
        cases hr : readHttpRequest buf ((b :: bs).take (httpMax - 1 - buf.length)) with
        | done http' =>
          simp only [hr] at h ⊢
          cases h
          rw [hput]
        | failed => simp [hr] at h
        | more buf' =>
          simp only [hr] at h ⊢
          exact ih h

/-! ## The answer -/

/-- A stream without a complete head is not answered. -/
theorem session_of_none {inc : Incoming UInt8} (h : requestHead (delivered inc) = none)
    (calls : Nat) : session calls inc = ⟨none, none, []⟩ := by
  have hspec := readHttpRequest_spec inc
  simp only [h] at hspec
  rw [session, hspec]

/-- The request is read, with bytes behind its head that do not count. -/
theorem readHttpRequest_head {inc : Incoming UInt8} {head : Bytes}
    (h : requestHead (delivered inc) = some head) : ∃ x rest,
      readHttpRequestFrom [] inc = some (head ++ x, rest) ∧ (head ++ x).length ≤ httpMax - 1 ∧
      delivered inc = head ++ x ++ delivered rest ∧
      findHeaderValue (cstr (head ++ x)) secWebSocketKey = findHeaderValue head secWebSocketKey ∧
      wsHandshakeReply (head ++ x) = wsHandshakeReply head := by
  have hspec := readHttpRequest_spec inc
  simp only [h] at hspec
  obtain ⟨m, rest, hread, hle, hmax, -, hrest⟩ := hspec
  obtain ⟨x, hx⟩ := take_of_requestHead h hle
  obtain ⟨⟨u, rfl⟩, hzero, -⟩ := requestHead_spec h
  refine ⟨x, rest, by rw [hread, hx], ?_, by rw [hrest, ← hx, List.take_append_drop], ?_, ?_⟩
  · rw [← hx, List.length_take]
    exact Nat.le_trans (Nat.min_le_left _ _) hmax
  · rw [cstr_append hzero, findHeaderValue_append]
  · exact wsHandshakeReply_append hzero x

/-- The key and the decision depend on the head alone. -/
theorem session_of_head {inc : Incoming UInt8} {head : Bytes}
    (h : requestHead (delivered inc) = some head) (calls : Nat) :
    (session calls inc).key = findHeaderValue head secWebSocketKey ∧
      (session calls inc).reply = wsHandshakeReply head := by
  obtain ⟨x, rest, hread, -, -, hkey, hreply⟩ := readHttpRequest_head h
  simp only [session, hread, hkey, hreply, and_self]

theorem session_answer {i j : Incoming UInt8} (h : delivered i = delivered j) (calls : Nat) :
    (session calls i).key = (session calls j).key ∧
      (session calls i).reply = (session calls j).reply := by
  cases hhead : requestHead (delivered i) with
  | none =>
    rw [session_of_none hhead, session_of_none (by rw [← h, hhead])]
    exact ⟨rfl, rfl⟩
  | some head =>
    obtain ⟨hki, hri⟩ := session_of_head hhead calls
    obtain ⟨hkj, hrj⟩ := session_of_head (by rw [← h, hhead]) calls
    exact ⟨hki.trans hkj.symm, hri.trans hrj.symm⟩

/-! ## The hand-over -/

/-- The frame reader of an accepted client gets every byte behind the head. -/
def KeepsTail (inc : Incoming UInt8) : Prop :=
  ∀ http rest, readHttpRequestFrom [] inc = some (http, rest) →
    (wsHandshakeReply http).isSome →
      ∃ head, requestHead (delivered inc) = some head ∧ delivered inc = head ++ delivered rest

/-- No `recv` brings the end of an acceptable head and bytes behind it: the head fills the
buffer, or it ends where a piece ends. -/
def HeadAlone (inc : Incoming UInt8) : Prop :=
  ∀ head, requestHead (delivered inc) = some head → Acceptable head →
    head.length = httpMax - 1 ∨ ∃ pre post, inc = pre ++ post ∧ delivered pre = head

/-- Two ways to cut a stream make no difference, and nothing is lost with either. -/
structure SegmentationIndependent (i j : Incoming UInt8) : Prop where
  same : ∀ calls, session calls i = session calls j
  left : KeepsTail i
  right : KeepsTail j

/-- Events that bring a complete head and no more end the reading. -/
theorem readHttpRequest_alone {inc pre : Incoming UInt8} {head : Bytes}
    (h : requestHead (delivered inc) = some head) (hpre : delivered pre = head) :
    ∃ http rest, readHttpRequestFrom [] pre = some (http, rest) ∧ http.length ≤ head.length := by
  obtain ⟨⟨u, hu⟩, hzero, -⟩ := requestHead_spec h
  have hfound := isSome_strstr_append u (crlf ++ crlf) []
  rw [List.append_nil, ← hu] at hfound
  have hwhole : (strstr (cstr (head.take head.length)) (crlf ++ crlf)).isSome := by
    rwa [List.take_length, cstr_eq_self hzero]
  obtain ⟨head', hh, -⟩ := (isSome_strstr_take (requestHead_length h)).mp hwhole
  have hspec := readHttpRequest_spec pre
  simp only [hpre, hh] at hspec
  obtain ⟨m, rest, hread, -, -, -, -⟩ := hspec
  exact ⟨_, rest, hread, List.length_take_le' _ _⟩

theorem keepsTail_iff (inc : Incoming UInt8) : KeepsTail inc ↔ HeadAlone inc := by
  constructor
  · intro hkeeps head hhead hacc
    obtain ⟨x, rest, hread, -, hsplit, -, hreply⟩ := readHttpRequest_head hhead
    obtain ⟨-, hzero, -⟩ := requestHead_spec hhead
    have hsome : (wsHandshakeReply (head ++ x)).isSome := by
      rw [hreply, wsHandshakeReply_isSome, cstr_eq_self hzero]
      exact hacc
    obtain ⟨head', hhead', hkept⟩ := hkeeps _ _ hread hsome
    rw [hhead] at hhead'
    cases hhead'
    rw [hsplit] at hkept
    have hx : head ++ x = head := List.append_cancel_right hkept
    rw [hx] at hread
    rcases readHttpRequestFrom_cut (by decide) hread with hfull | ⟨pre, hinc, hpre⟩
    · exact .inl hfull
    · exact .inr ⟨pre, rest, hinc, hpre.symm⟩
  · intro halone http rest hread hsome
    cases hhead : requestHead (delivered inc) with
    | none =>
      have hspec := readHttpRequest_spec inc
      simp only [hhead] at hspec
      rw [hread] at hspec
      cases hspec
    | some head =>
      obtain ⟨x, rest', hread', hmax, hsplit, -, hreply⟩ := readHttpRequest_head hhead
      obtain ⟨-, hzero, -⟩ := requestHead_spec hhead
      rw [hread'] at hread
      cases hread
      rw [hreply, wsHandshakeReply_isSome, cstr_eq_self hzero] at hsome
      have hx : (head ++ x).length ≤ head.length := by
        rcases halone head hhead hsome with hfull | ⟨pre, post, rfl, hpre⟩
        · rwa [hfull]
        · obtain ⟨http, rest, hread, hle⟩ := readHttpRequest_alone hhead hpre
          rw [readHttpRequestFrom_append hread post] at hread'
          cases hread'
          exact hle
      refine ⟨head, rfl, ?_⟩
      rw [List.length_append] at hx
      obtain rfl : x = [] := List.eq_nil_of_length_eq_zero (by omega)
      rwa [List.append_nil] at hsplit

/-- On a stream that is cut behind its head, the frames are those of the rest. -/
theorem session_frames {i j : Incoming UInt8} (h : delivered i = delivered j)
    (hi : KeepsTail i) (hj : KeepsTail j) (calls : Nat) :
    (session calls i).frames = (session calls j).frames := by
  cases hhead : requestHead (delivered i) with
  | none => rw [session_of_none hhead, session_of_none (by rw [← h, hhead])]
  | some head =>
    obtain ⟨xi, resti, hreadi, -, -, -, hreplyi⟩ := readHttpRequest_head hhead
    obtain ⟨xj, restj, hreadj, -, -, -, hreplyj⟩ := readHttpRequest_head (by rw [← h, hhead])
    simp only [session, hreadi, hreadj, hreplyi, hreplyj]
    split
    · next hsome =>
      obtain ⟨hdi, hhi, hki⟩ := hi _ _ hreadi (by rwa [hreplyi])
      obtain ⟨hdj, hhj, hkj⟩ := hj _ _ hreadj (by rwa [hreplyj])
      rw [h, hhj] at hhi
      cases hhi
      have hrest : delivered resti = delivered restj := by
        rw [h, hkj] at hki
        exact (List.append_cancel_left hki).symm
      exact ((stable_wsRecvFrame true).collect_congr calls hrest).1
    · rfl

/-- **What the cuts of a stream can change.** `i` and `j` deliver the same bytes in any pieces.
The decision of the handshake and the key of it are the same in both, always. What follows the
head is not: `read_http_request` keeps nothing of what a `recv` brought beyond the end of the
head. The two sessions agree in all calls of `ws_recv_frame`, and both lose nothing, exactly if
in both runs the end of an acceptable head ends a piece, or the head fills the buffer. -/
theorem session_segmentation {i j : Incoming UInt8} (h : delivered i = delivered j) :
    (∀ calls, (session calls i).key = (session calls j).key ∧
      (session calls i).reply = (session calls j).reply) ∧
    (SegmentationIndependent i j ↔ HeadAlone i ∧ HeadAlone j) := by
  refine ⟨session_answer h, ?_⟩
  rw [← keepsTail_iff, ← keepsTail_iff]
  constructor
  · intro hind
    exact ⟨hind.left, hind.right⟩
  · rintro ⟨hi, hj⟩
    refine ⟨fun calls => ?_, hi, hj⟩
    obtain ⟨hkey, hreply⟩ := session_answer h calls
    have hframes := session_frames h hi hj calls
    cases hsi : session calls i
    cases hsj : session calls j
    rw [hsi, hsj] at hkey hreply hframes
    simp only [Session.mk.injEq]
    exact ⟨hkey, hreply, hframes⟩

/-- A request, and a client that sends its first frame right behind it. -/
def eagerRequest : Bytes :=
  ascii "GET / HTTP/1.1\r\nSec-WebSocket-Key: dGhlIHNhbXBsZSBub25jZQ==\r\n\r\n"

def eagerPing : Bytes := [0x89, 0x80, 1, 2, 3, 4]

/-- In one piece with the request the ping is lost. -/
theorem session_loses_early_frame :
    ¬ ∀ i j : Incoming UInt8, delivered i = delivered j →
      ∀ calls, session calls i = session calls j := by
  intro h
  have heq := h [.data eagerRequest, .data eagerPing] [.data (eagerRequest ++ eagerPing)]
    (by decide) 1
  have hkept : (session 1 [.data eagerRequest, .data eagerPing]).frames = [⟨9, []⟩] := by
    decide +kernel
  have hlost : (session 1 [.data (eagerRequest ++ eagerPing)]).frames = [] := by
    decide +kernel
  rw [heq, hlost] at hkept
  cases hkept

/-- Cut behind the request, it is answered, whatever the other cuts. -/
theorem session_segmentation_eager :
    SegmentationIndependent [.data eagerRequest, .eintr, .data eagerPing]
      [.data (eagerRequest.take 10), .data (eagerRequest.drop 10), .data [0x89],
        .data (eagerPing.drop 1)] := by
  apply (session_segmentation (by decide)).2.mpr
  have hhead : requestHead (eagerRequest ++ eagerPing) = some eagerRequest := by
    decide
  constructor
  · intro head hh _
    rw [show delivered [.data eagerRequest, .eintr, .data eagerPing] = eagerRequest ++ eagerPing by
      decide, hhead] at hh
    cases hh
    exact .inr ⟨[.data eagerRequest], _, rfl, by decide⟩
  · intro head hh _
    rw [show delivered [.data (eagerRequest.take 10), .data (eagerRequest.drop 10), .data [0x89],
      .data (eagerPing.drop 1)] = eagerRequest ++ eagerPing by decide, hhead] at hh
    cases hh
    exact .inr ⟨[.data (eagerRequest.take 10), .data (eagerRequest.drop 10)], _, rfl,
      by decide⟩

end TelemetryTestbed.WebSocket
