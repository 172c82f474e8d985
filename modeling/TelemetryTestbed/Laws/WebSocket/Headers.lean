import TelemetryTestbed.Lib.HeaderLines
import TelemetryTestbed.WebSocket.Session

/-!
# What the handshake looks at

`find_header_value` is a search through the lines of the head, so nothing behind
the empty line has a say in the answer to a request (`wsHandshakeReply_append`),
and a request is accepted exactly when it is a GET and the line that names the
key has a value (`wsHandshakeReply_isSome`).

Both are used where the cutting of the stream is discussed, since what a `recv` brings beyond
the head stands behind the empty line. A method in lower case, and a `GET` with something else
than a blank behind it, are refused.
-/

namespace TelemetryTestbed.WebSocket

open TelemetryTestbed.Lib

/-! ## The line that names a header -/

/-- The line names the header, with something behind the colon. -/
def namesHeader (name text : Bytes) : Bool :=
  name.length + 1 < text.length && icaseStartsWith text name && text[name.length]? = some 58

def lineValue (name text : Bytes) : Bytes := (text.drop (name.length + 1)).dropWhile isBlank

theorem icaseStartsWith_append {s name : Bytes} (h : name.length ≤ s.length) (x : Bytes) :
    icaseStartsWith (s ++ x) name = icaseStartsWith s name := by
  induction name generalizing s with
  | nil => simp [icaseStartsWith]
  | cons c name ih =>
    cases s with
    | nil => simp at h
    | cons b s =>
      simp only [List.cons_append, icaseStartsWith]
      rw [ih (Nat.le_of_succ_le_succ h)]

theorem icaseStartsWith_iff (line name : Bytes) : icaseStartsWith line name = true ↔
    (line.take name.length).map tolower = name.map tolower := by
  induction name generalizing line with
  | nil => simp [icaseStartsWith]
  | cons c name ih =>
    cases line with
    | nil => simp [icaseStartsWith]
    | cons b line =>
      simp only [icaseStartsWith, List.length_cons, List.take_succ_cons, List.map_cons,
        List.cons.injEq, Bool.and_eq_true, decide_eq_true_eq]
      exact and_congr_right fun _ => ih line

theorem findHeaderLoop_eq (name : Bytes) {n : Nat} {p : Bytes} (h : p.length ≤ n) :
    findHeaderLoop n p name =
      ((linesFrom [] p).find? (namesHeader name)).map (lineValue name) := by
  induction n generalizing p with
  | zero =>
    obtain rfl := List.eq_nil_of_length_eq_zero (Nat.le_zero.mp h)
    rfl
  | succ n ih =>
    unfold findHeaderLoop
    split
    · next hp =>
      subst hp
      rfl
    · next hp =>
      split
      · next hs =>
        rw [linesFrom_of_none [] hs]
        rfl
      · next e hs =>
        obtain ⟨hcrlf, line, rfl⟩ := strstr_split hs
        have he : 2 ≤ e.length := hcrlf.length_le
        have hline : (line ++ e).take ((line ++ e).length - e.length) = line := by
          rw [List.length_append, Nat.add_sub_cancel, List.take_left]
        rw [linesFrom_of_strstr [] hs]
        simp only [hline, List.nil_append]
        split
        · rfl
        · next hne =>
          have hnames : (name.length + 1 < line.length ∧ icaseStartsWith (line ++ e) name ∧
              (line ++ e)[name.length]? = some 58) ↔ namesHeader name line = true := by
            simp only [namesHeader, Bool.and_eq_true, decide_eq_true_eq, and_assoc]
            apply and_congr_right
            intro hlen
            rw [icaseStartsWith_append (by omega), List.getElem?_append_left (by omega)]
          by_cases hn : namesHeader name line = true
          · rw [if_pos (hnames.mpr hn), List.find?_cons_of_pos hn]
            rfl
          · rw [if_neg (fun hc => hn (hnames.mp hc)), List.find?_cons_of_neg hn]
            apply ih
            rw [List.length_append] at h
            rw [List.length_drop]
            omega

/-- `find_header_value` is the search for the first line that names the header. -/
theorem findHeaderValue_eq (http name : Bytes) : findHeaderValue http name =
    ((headerLines http).find? (namesHeader name)).map (lineValue name) :=
  findHeaderLoop_eq name (Nat.le_refl _)

/-! ## Accepted requests -/

/-- A GET request whose key line has a value. -/
def Acceptable (http : Bytes) : Prop :=
  ascii "GET " <+: http ∧ ∃ key, findHeaderValue http secWebSocketKey = some key ∧ key ≠ []

theorem length_base64Loop (input : Bytes) :
    (base64Loop input).length = 4 * ((input.length + 2) / 3) := by
  fun_induction base64Loop input with
  | case1 => rfl
  | case2 a => simp [b64Group]
  | case3 a b => simp [b64Group]
  | case4 a b c rest ih =>
    rw [List.length_append, ih]
    simp only [b64Group, List.length_cons, List.length_nil]
    omega

theorem length_sha1Final (ctx : Sha1Ctx) : (sha1Final ctx).length = 20 := by
  simp [sha1Final, wordBe]

/-- There is an accept value for every key. -/
theorem computeAcceptKey_eq (key : Bytes) : computeAcceptKey key =
    some (base64Loop (sha1Final (sha1Update sha1Init (snprintf 256 (key ++ wsGuid))))) := by
  unfold computeAcceptKey base64Encode
  simp only [length_sha1Final]
  rfl

/-- The response to an accept value fits its buffer. -/
theorem length_switchingProtocols {accept : Bytes} (h : accept.length = 28) :
    (switchingProtocols accept).length < 256 := by
  have h1 : (ascii "HTTP/1.1 101 Switching Protocols\r\n").length = 34 := by decide
  have h2 : (ascii "Upgrade: websocket\r\n").length = 20 := by decide
  have h3 : (ascii "Connection: Upgrade\r\n").length = 21 := by decide
  have h4 : (ascii "Sec-WebSocket-Accept: ").length = 22 := by decide
  have h5 : crlf.length = 2 := rfl
  simp only [switchingProtocols, List.length_append, h, h1, h2, h3, h4, h5]
  omega

/-- What is sent for a request that names a key. -/
theorem wsHandshakeReply_of_key {buf key : Bytes} (hget : ascii "GET " <+: cstr buf)
    (hkey : findHeaderValue (cstr buf) secWebSocketKey = some key) (hne : key ≠ []) :
    wsHandshakeReply buf = some (switchingProtocols
      (base64Loop (sha1Final (sha1Update sha1Init (snprintf 256 (key ++ wsGuid)))))) := by
  have hlen : (base64Loop (sha1Final (sha1Update sha1Init
      (snprintf 256 (key ++ wsGuid))))).length = 28 := by
    rw [length_base64Loop, length_sha1Final]
  have hget' : (ascii "GET ").isPrefixOf (cstr buf) = true := List.isPrefixOf_iff_prefix.mpr hget
  rw [secWebSocketKey] at hkey
  simp only [wsHandshakeReply, hget', not_true_eq_false, if_false, hkey, hne,
    computeAcceptKey_eq]
  rw [if_pos (length_switchingProtocols hlen)]

/-- A request is accepted exactly when it is a GET with a key. -/
theorem wsHandshakeReply_isSome (buf : Bytes) :
    (wsHandshakeReply buf).isSome ↔ Acceptable (cstr buf) := by
  constructor
  · intro h
    by_cases hget : (ascii "GET ").isPrefixOf (cstr buf) = true
    · refine ⟨List.isPrefixOf_iff_prefix.mp hget, ?_⟩
      cases hkey : findHeaderValue (cstr buf) secWebSocketKey with
      | none =>
        rw [secWebSocketKey] at hkey
        simp [wsHandshakeReply, hget, hkey] at h
      | some key =>
        refine ⟨key, rfl, ?_⟩
        rintro rfl
        rw [secWebSocketKey] at hkey
        simp [wsHandshakeReply, hget, hkey] at h
    · simp [wsHandshakeReply, hget] at h
  · rintro ⟨hget, key, hkey, hne⟩
    rw [wsHandshakeReply_of_key hget hkey hne]
    rfl

/-! ## Behind the empty line -/

/-- The key does not depend on what follows the empty line. -/
theorem findHeaderValue_append (u x name : Bytes) :
    findHeaderValue (u ++ (crlf ++ crlf) ++ x) name = findHeaderValue (u ++ (crlf ++ crlf)) name := by
  rw [findHeaderValue_eq, findHeaderValue_eq]
  congr 2
  exact headerLines_append u x

theorem wsHandshakeReply_append {u : Bytes} (h : (0 : UInt8) ∉ u ++ (crlf ++ crlf)) (x : Bytes) :
    wsHandshakeReply (u ++ (crlf ++ crlf) ++ x) = wsHandshakeReply (u ++ (crlf ++ crlf)) := by
  have hget : (ascii "GET ").isPrefixOf (u ++ (crlf ++ crlf) ++ cstr x) =
      (ascii "GET ").isPrefixOf (u ++ (crlf ++ crlf)) := by
    rw [Bool.eq_iff_iff, List.isPrefixOf_iff_prefix, List.isPrefixOf_iff_prefix]
    constructor
    · intro hp
      apply List.prefix_of_prefix_length_le hp (List.prefix_append _ _)
      rw [List.length_append]
      exact Nat.le_add_left 4 _
    · intro hp
      exact hp.trans (List.prefix_append _ _)
  unfold wsHandshakeReply
  simp only [cstr_append h, cstr_eq_self h, hget, findHeaderValue_append]

end TelemetryTestbed.WebSocket
