import Mathlib.Data.List.DropRight
import TelemetryTestbed.Laws.WebSocket.Digest
import TelemetryTestbed.Laws.WebSocket.Headers

/-!
# The accept value

What a handshake is to answer is said over the lines of the head: the key is the
first non-empty value of the key header with the blanks around it removed, and
the answer is the Base64 of the SHA-1 of the key and the GUID. The program takes
the first line that names the header and has something behind the colon, removes
the blanks in front of the value only, and cuts key and GUID to the 255 bytes of
a buffer. `handshakeCorrect_iff` says for which requests that is the same.

The equivalence is proved for the first key line that has anything behind its colon: the
string the program hashes and the string of the protocol are then compared byte by byte, and
two different ones give the same answer only where SHA-1 gives them the same digest. A request
with no such line is refused, as it should be.
-/

namespace TelemetryTestbed.WebSocket

open TelemetryTestbed.Lib

/-! ## What is to be answered -/

def trimBlanks (value : Bytes) : Bytes := (value.dropWhile isBlank).rdropWhile isBlank

/-- The value of the header in a line, where the line is one of this header. -/
def headerField (name text : Bytes) : Option Bytes :=
  if (text.take name.length).map tolower = name.map tolower ∧ text[name.length]? = some 58 then
    some (trimBlanks (text.drop (name.length + 1)))
  else none

/-- The first value of the key header that is not empty. -/
def requestKey (http : Bytes) : Option Bytes :=
  ((headerLines http).filterMap (headerField secWebSocketKey)).find? fun value => value ≠ []

def acceptValue (key : Bytes) : Bytes := base64 (sha1 (key ++ wsGuid))

/-- An accepted request is answered with the accept value of its key, and a GET request that
has a key is accepted. -/
def HandshakeCorrect (buf : Bytes) : Prop :=
  (∀ resp, wsHandshakeReply buf = some resp →
    ∃ key, requestKey (cstr buf) = some key ∧ resp = switchingProtocols (acceptValue key)) ∧
  (ascii "GET " <+: cstr buf → (requestKey (cstr buf)).isSome → (wsHandshakeReply buf).isSome)

/-! ## Lines -/

theorem headerField_of_names {name line : Bytes} (h : namesHeader name line = true) :
    headerField name line = some ((lineValue name line).rdropWhile isBlank) := by
  simp only [namesHeader, Bool.and_eq_true, decide_eq_true_eq] at h
  obtain ⟨⟨-, hname⟩, hcolon⟩ := h
  exact if_pos ⟨(icaseStartsWith_iff line name).mp hname, hcolon⟩

/-- A line with a value is one that the program takes. -/
theorem names_of_headerField {name line value : Bytes}
    (h : headerField name line = some value) (hne : value ≠ []) :
    namesHeader name line = true := by
  unfold headerField at h
  split at h
  · next hline =>
    cases h
    have hlong : name.length + 1 < line.length := by
      apply Nat.lt_of_not_le
      intro hle
      apply hne
      rw [List.drop_eq_nil_iff.mpr hle]
      rfl
    simp only [namesHeader, Bool.and_eq_true, decide_eq_true_eq]
    exact ⟨⟨hlong, (icaseStartsWith_iff line name).mpr hline.1⟩, hline.2⟩
  · cases h

/-- The blanks behind a value do not make up all of it. -/
theorem trim_ne_nil {name line : Bytes} (h : lineValue name line ≠ []) :
    (lineValue name line).rdropWhile isBlank ≠ [] := by
  intro hnil
  have hblank := List.rdropWhile_eq_nil_iff.mp hnil
  have hhead := List.head_dropWhile_not isBlank h
  exact Bool.eq_false_iff.mp hhead (hblank _ (List.head_mem h))

theorem find?_of_imp {α : Type*} {p q : α → Bool} (hqp : ∀ x, q x = true → p x = true)
    {l : List α} {a : α} (hp : l.find? p = some a) (hq : q a = true) : l.find? q = some a := by
  obtain ⟨-, as, bs, rfl, has⟩ := List.find?_eq_some_iff_append.mp hp
  refine List.find?_eq_some_iff_append.mpr ⟨hq, as, bs, rfl, fun x hx => ?_⟩
  cases hqx : q x with
  | false => rfl
  | true => simpa [hqp x hqx] using has x hx

/-- The first line that names the key header with something behind the colon. -/
def keyLine (http : Bytes) : Option Bytes :=
  (headerLines http).find? (namesHeader secWebSocketKey)

theorem findHeaderValue_key (http : Bytes) :
    findHeaderValue http secWebSocketKey = (keyLine http).map (lineValue secWebSocketKey) :=
  findHeaderValue_eq http secWebSocketKey

/-- No such line, no key. -/
theorem requestKey_of_none {http : Bytes} (h : keyLine http = none) : requestKey http = none := by
  apply List.find?_eq_none.mpr
  intro value hvalue hne
  obtain ⟨line, hline, hfield⟩ := List.mem_filterMap.mp hvalue
  exact List.find?_eq_none.mp h line hline (names_of_headerField hfield (of_decide_eq_true hne))

/-- Where this line has a value, it is the key. -/
theorem requestKey_of_some {http line : Bytes} (h : keyLine http = some line)
    (hne : lineValue secWebSocketKey line ≠ []) :
    requestKey http = some ((lineValue secWebSocketKey line).rdropWhile isBlank) := by
  have hfield := headerField_of_names (List.find?_some h)
  have hfirst : (headerLines http).find? (fun l =>
      (headerField secWebSocketKey l).any fun value => value ≠ []) = some line := by
    refine find?_of_imp ?_ h ?_
    · intro l hl
      obtain ⟨value, hvalue, hne⟩ := (Option.any_eq_true _ _).mp hl
      exact names_of_headerField hvalue (of_decide_eq_true hne)
    · rw [hfield]
      exact decide_eq_true (trim_ne_nil hne)
  rw [requestKey, List.find?_filterMap, hfirst]
  exact hfield

/-! ## The buffer for key and GUID -/

/-- The program hashes the string of the protocol exactly for a value without blanks behind
it that leaves room for the GUID. -/
theorem snprintf_eq_iff (value : Bytes) :
    snprintf 256 (value ++ wsGuid) = value.rdropWhile isBlank ++ wsGuid ↔
      value.rdropWhile isBlank = value ∧ value.length ≤ 219 := by
  have hguid : wsGuid.length = 36 := by decide
  have hfirst : wsGuid[0]? = some 50 := by decide
  constructor
  · intro h
    have hlen := congrArg List.length h
    rw [snprintf, List.length_take, List.length_append, List.length_append, hguid] at hlen
    have hsplit := List.rdropWhile_append_rtakeWhile (p := isBlank) (l := value)
    cases htail : value.rtakeWhile isBlank with
    | nil =>
      rw [htail, List.append_nil] at hsplit
      rw [hsplit] at hlen
      exact ⟨hsplit, by omega⟩
    | cons b tail =>
      -- A blank would stand where the GUID begins.
      have hb : isBlank b = true :=
        List.mem_rtakeWhile_imp (by rw [htail]; exact List.mem_cons_self)
      have hshort : (value.rdropWhile isBlank).length < 255 := by omega
      have hall : value ++ wsGuid = value.rdropWhile isBlank ++ (b :: tail ++ wsGuid) := by
        rw [← htail, ← List.append_assoc, hsplit]
      have hl : (snprintf 256 (value ++ wsGuid))[(value.rdropWhile isBlank).length]? = some b := by
        rw [snprintf, List.getElem?_take_of_lt hshort, hall,
          List.getElem?_append_right (Nat.le_refl _), Nat.sub_self]
        rfl
      rw [h, List.getElem?_append_right (Nat.le_refl _), Nat.sub_self, hfirst] at hl
      cases hl
      cases hb
  · rintro ⟨hself, hlen⟩
    rw [hself, snprintf]
    apply List.take_of_length_le
    rw [List.length_append, hguid]
    omega

/-! ## Which requests are answered correctly -/

/-- The digest of a short message, as the program computes it. -/
theorem sha1_eq_sha1Final {message : Bytes} (h : message.length ≤ 255) :
    sha1 message = sha1Final (sha1Update sha1Init message) := by
  have habsorbed := absorbed_init.update message
  exact (habsorbed.final (by rw [List.nil_append]; omega)).symm

/-- What the program answers to a request whose key line has a value. -/
theorem wsHandshakeReply_of_keyLine {buf line : Bytes} (hget : ascii "GET " <+: cstr buf)
    (h : keyLine (cstr buf) = some line) (hne : lineValue secWebSocketKey line ≠ []) :
    wsHandshakeReply buf = some (switchingProtocols
      (base64 (sha1 (snprintf 256 (lineValue secWebSocketKey line ++ wsGuid))))) := by
  have hkey : findHeaderValue (cstr buf) secWebSocketKey =
      some (lineValue secWebSocketKey line) := by
    rw [findHeaderValue_key, h]
    rfl
  have hlen : (snprintf 256 (lineValue secWebSocketKey line ++ wsGuid)).length ≤ 255 := by
    rw [snprintf, List.length_take]
    exact Nat.min_le_left _ _
  rw [wsHandshakeReply_of_key hget hkey hne, base64Loop_eq, sha1_eq_sha1Final hlen]

theorem wsHandshakeReply_eq_none {buf : Bytes} (h : ¬ Acceptable (cstr buf)) :
    wsHandshakeReply buf = none := by
  rw [← wsHandshakeReply_isSome] at h
  exact Option.not_isSome_iff_eq_none.mp h

/-- The accept value stands in the response. -/
theorem switchingProtocols_injective {x y : Bytes}
    (h : switchingProtocols x = switchingProtocols y) : x = y := by
  unfold switchingProtocols at h
  exact List.append_cancel_left (List.append_cancel_right (List.append_cancel_right h))

/-- The first key line that has anything behind its colon has a value of at most 219 bytes
with no blank behind it; where it has blanks only, no key line has a value. -/
def KeyPlain (http : Bytes) : Prop :=
  ∀ line, keyLine http = some line →
    (lineValue secWebSocketKey line = [] → requestKey http = none) ∧
    (lineValue secWebSocketKey line ≠ [] →
      (lineValue secWebSocketKey line).rdropWhile isBlank = lineValue secWebSocketKey line ∧
        (lineValue secWebSocketKey line).length ≤ 219)

/-- The string that is hashed for the first key line is another one than that of the
protocol, and SHA-1 has the same digest for both. -/
def DigestsCollide (http : Bytes) : Prop :=
  ∃ line, keyLine http = some line ∧ lineValue secWebSocketKey line ≠ [] ∧
    snprintf 256 (lineValue secWebSocketKey line ++ wsGuid) ≠
      (lineValue secWebSocketKey line).rdropWhile isBlank ++ wsGuid ∧
    sha1 (snprintf 256 (lineValue secWebSocketKey line ++ wsGuid)) =
      sha1 ((lineValue secWebSocketKey line).rdropWhile isBlank ++ wsGuid)

/-- With a value in the first key line, the answer is right when the digests agree. -/
theorem handshakeCorrect_of_keyLine {buf line : Bytes} (hget : ascii "GET " <+: cstr buf)
    (h : keyLine (cstr buf) = some line) (hne : lineValue secWebSocketKey line ≠ []) :
    HandshakeCorrect buf ↔ sha1 (snprintf 256 (lineValue secWebSocketKey line ++ wsGuid)) =
      sha1 ((lineValue secWebSocketKey line).rdropWhile isBlank ++ wsGuid) := by
  have hreply := wsHandshakeReply_of_keyLine hget h hne
  have hkey := requestKey_of_some h hne
  constructor
  · intro hcorrect
    obtain ⟨key, hk, hresp⟩ := hcorrect.1 _ hreply
    rw [hkey] at hk
    cases hk
    exact base64_injective (switchingProtocols_injective hresp)
  · intro hdigest
    refine ⟨fun resp hresp => ⟨_, hkey, ?_⟩, fun _ _ => by rw [hreply]; rfl⟩
    rw [hreply] at hresp
    cases hresp
    rw [hdigest]
    rfl

/-- Without one, the request is rejected, which is right when there is no key. -/
theorem handshakeCorrect_of_rejected {buf : Bytes} (hget : ascii "GET " <+: cstr buf)
    (h : ¬ Acceptable (cstr buf)) : HandshakeCorrect buf ↔ requestKey (cstr buf) = none := by
  have hreply := wsHandshakeReply_eq_none h
  constructor
  · intro hcorrect
    cases hk : requestKey (cstr buf) with
    | none => rfl
    | some key =>
      have hsome := hcorrect.2 hget (by rw [hk]; rfl)
      rw [hreply] at hsome
      cases hsome
  · intro hnone
    refine ⟨fun resp hresp => ?_, fun _ hsome => ?_⟩
    · rw [hreply] at hresp
      cases hresp
    · rw [hnone] at hsome
      cases hsome

/-- **Which requests the handshake answers as the protocol says.** `buf` is what
`read_http_request` has left in its buffer, and any bytes will do. `HandshakeCorrect` is told in
the words of the protocol: a request that is accepted gets the accept value of its key, and a
`GET` that has a key is accepted. The program does that exactly for a request that is no `GET`,
or whose first key line is plain (`KeyPlain`: at most 219 bytes, no blank behind the value, not
blank altogether while a later line has the key), or for which SHA-1 happens to have one digest
for the string that is hashed and the one that should be. That last case cannot be ruled out
here, since nothing is assumed about SHA-1. -/
theorem handshakeCorrect_iff (buf : Bytes) : HandshakeCorrect buf ↔
    (ascii "GET " <+: cstr buf → KeyPlain (cstr buf) ∨ DigestsCollide (cstr buf)) := by
  by_cases hget : ascii "GET " <+: cstr buf
  · rw [imp_iff_right hget]
    cases hline : keyLine (cstr buf) with
    | none =>
      have hrej : ¬ Acceptable (cstr buf) := by
        rintro ⟨-, key, hkey, -⟩
        rw [findHeaderValue_key, hline] at hkey
        cases hkey
      rw [handshakeCorrect_of_rejected hget hrej]
      have hplain : KeyPlain (cstr buf) := by
        intro line hl
        rw [hline] at hl
        cases hl
      exact iff_of_true (requestKey_of_none hline) (.inl hplain)
    | some line =>
      by_cases hne : lineValue secWebSocketKey line = []
      · have hrej : ¬ Acceptable (cstr buf) := by
          rintro ⟨-, key, hkey, hkne⟩
          rw [findHeaderValue_key, hline] at hkey
          cases hkey
          exact hkne hne
        rw [handshakeCorrect_of_rejected hget hrej]
        constructor
        · intro hnone
          refine .inl fun l hl => ?_
          rw [hline] at hl
          cases hl
          exact ⟨fun _ => hnone, fun hv => absurd hne hv⟩
        · rintro (hplain | ⟨l, hl, hv, -⟩)
          · exact (hplain line hline).1 hne
          · rw [hline] at hl
            cases hl
            exact absurd hne hv
      · rw [handshakeCorrect_of_keyLine hget hline hne]
        constructor
        · intro hdigest
          by_cases heq : snprintf 256 (lineValue secWebSocketKey line ++ wsGuid) =
              (lineValue secWebSocketKey line).rdropWhile isBlank ++ wsGuid
          · refine .inl fun l hl => ?_
            rw [hline] at hl
            cases hl
            exact ⟨fun hnil => absurd hnil hne, fun _ => (snprintf_eq_iff _).mp heq⟩
          · exact .inr ⟨line, hline, hne, heq, hdigest⟩
        · rintro (hplain | ⟨l, hl, -, -, hdigest⟩)
          · rw [(snprintf_eq_iff _).mpr ((hplain line hline).2 hne)]
          · rw [hline] at hl
            cases hl
            exact hdigest
  · have hrej : ¬ Acceptable (cstr buf) := fun h => hget h.1
    refine iff_of_true ⟨fun resp hresp => ?_, fun h => absurd h hget⟩ fun h => absurd h hget
    rw [wsHandshakeReply_eq_none hrej] at hresp
    cases hresp

/-- A request with a blank behind its key. -/
def blankBehindKey : Bytes :=
  ascii "GET / HTTP/1.1\r\nSec-WebSocket-Key: dGhlIHNhbXBsZSBub25jZQ== \r\n\r\n"

/-- The blank is hashed as a part of the key. -/
theorem handshake_hashes_blank :
    ¬ ∀ buf : Bytes, buf.length ≤ httpMax - 1 → HandshakeCorrect buf := by
  intro h
  have hcorrect := h blankBehindKey (by decide)
  have hline : keyLine (cstr blankBehindKey) =
      some (ascii "Sec-WebSocket-Key: dGhlIHNhbXBsZSBub25jZQ== ") := by decide
  have hget : ascii "GET " <+: cstr blankBehindKey := by decide
  rw [handshakeCorrect_of_keyLine hget hline (by decide),
    sha1_eq_sha1Final (by decide), sha1_eq_sha1Final (by decide)] at hcorrect
  exact absurd hcorrect (by decide +kernel)

end TelemetryTestbed.WebSocket
