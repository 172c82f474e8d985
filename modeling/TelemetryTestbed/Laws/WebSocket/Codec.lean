import Mathlib.Data.List.Forall2
import Mathlib.Data.List.GetD
import TelemetryTestbed.Lib.WebSocketFrame
import TelemetryTestbed.WebSocket.Codec

/-!
# Frames over streams

`ws_recv_frame` undoes `ws_send_text` and the client framing of RFC 6455,
however the stream is cut. `ws_send_text` emits such a frame itself
(`wsSendText_bytes`), so one law about the receiver serves both
(`wsRecvFrame_reads`). That the receiver is `Stable` gives the rest: it does not
see the cuts, and it takes no part of a frame for a whole one.

Stability is proved once for `recv_all` and carried through the header, the extended length,
the key and the payload by the rules of the stream library. No timeout is among the answers
here; what one does to a session is told in another module.
-/

namespace TelemetryTestbed.WebSocket

open TelemetryTestbed.Lib

/-! ## Receiving bytes -/

theorem recvAll_some {n : Nat} {inc rest : Incoming UInt8} {got : Bytes}
    (h : recvAll n inc = some (got, rest)) :
    got.length = n ∧ delivered inc = got ++ delivered rest := by
  induction inc generalizing n got rest with
  | nil =>
    cases n with
    | zero =>
      cases h
      exact ⟨rfl, rfl⟩
    | succ n => cases h
  | cons e inc ih =>
    cases n with
    | zero =>
      cases h
      exact ⟨rfl, rfl⟩
    | succ n =>
      cases e with
      | eintr => exact ih h
      | failed => cases h
      | data bytes =>
        cases bytes with
        | nil => cases h
        | cons b bs =>
          simp only [recvAll, List.isEmpty_cons, Bool.false_eq_true, if_false] at h
          split at h
          · next hle =>
            split at h
            · cases h
            · next got' rest' hr =>
              cases h
              obtain ⟨hlen, hd⟩ := ih hr
              refine ⟨?_, ?_⟩
              · rw [List.length_append, hlen]
                omega
              · simp only [delivered, hd, List.append_assoc]
          · next hlt =>
            cases h
            have hdrop : (b :: bs).drop (n + 1) ≠ [] := by
              rw [ne_eq, List.drop_eq_nil_iff]
              exact hlt
            refine ⟨?_, ?_⟩
            · rw [List.length_take]
              omega
            · cases hd : (b :: bs).drop (n + 1) with
              | nil => exact absurd hd hdrop
              | cons c cs =>
                rw [delivered, delivered, ← hd, ← List.append_assoc, List.take_append_drop]

/-- Bytes that are there are received, however they are cut. -/
theorem recvAll_reads (w : Bytes) : (recvAll w.length).Reads w w := by
  intro inc t h
  induction inc generalizing w with
  | nil =>
    obtain ⟨rfl, rfl⟩ := List.append_eq_nil_iff.mp h.symm
    exact ⟨[], rfl, rfl⟩
  | cons e inc ih =>
    cases w with
    | nil => exact ⟨e :: inc, rfl, h⟩
    | cons x w =>
      cases e with
      | eintr => exact ih (x :: w) h
      | failed => cases h
      | data bytes =>
        cases bytes with
        | nil => cases h
        | cons b bs =>
          have hsplit : b :: bs ++ delivered inc = x :: w ++ t := h
          simp only [recvAll, List.length_cons, List.isEmpty_cons, Bool.false_eq_true, if_false]
          rcases List.append_eq_append_iff.mp hsplit with ⟨more, hw, hinc⟩ | ⟨left, hb, ht⟩
          · -- The piece is used up: it is the front of what is wanted.
            have hlen : w.length = bs.length + more.length := by
              simpa using congrArg List.length hw
            obtain ⟨rest, hr, hrest⟩ := ih more hinc
            rw [if_pos (by omega), show w.length + 1 - (bs.length + 1) = more.length by omega]
            simp only [hr]
            exact ⟨rest, by rw [hw], hrest⟩
          · have hlen : bs.length = w.length + left.length := by
              simpa using congrArg List.length hb
            cases left with
            | nil =>
              rw [List.append_nil] at hb
              rw [List.nil_append] at ht
              obtain ⟨rest, hr, hrest⟩ := ih [] ht.symm
              rw [List.length_nil] at hlen
              rw [if_pos (by omega), show w.length + 1 - (bs.length + 1) = 0 by omega]
              simp only [show recvAll 0 inc = some ([], rest) from hr]
              exact ⟨rest, by rw [hb, List.append_nil], hrest⟩
            | cons c left =>
              rw [List.length_cons] at hlen
              rw [if_neg (by omega), hb]
              refine ⟨.data (c :: left) :: inc, ?_, ht.symm⟩
              rw [List.take_left' (by simp), List.drop_left' (by simp)]

theorem stable_recvAll (n : Nat) : (recvAll n).Stable := by
  intro i j got rest t h hj
  obtain ⟨rfl, hi⟩ := recvAll_some h
  exact recvAll_reads got j _ (by rw [hj, hi, List.append_assoc])

theorem stable_recvLength (h1 : UInt8) : (recvLength h1).Stable := by
  unfold recvLength
  apply Reader.Stable.ite
  · exact (stable_recvAll 2).andThen fun _ => Reader.stable_ret _
  · apply Reader.Stable.ite
    · exact (stable_recvAll 8).andThen fun _ => Reader.stable_ret _
    · exact Reader.stable_ret _

theorem stable_recvBody (malloc : Bool) (opcode masked : UInt8) (len : UInt64) :
    (recvBody malloc opcode masked len).Stable := by
  apply Reader.Stable.require
  apply ((stable_recvAll 4).ite (Reader.stable_ret _)).andThen
  intro mask
  apply Reader.Stable.require
  apply ((stable_recvAll _).ite (Reader.stable_ret _)).andThen
  intro payload
  exact Reader.stable_ret _

/-- `ws_recv_frame` does not see how its bytes are cut. -/
theorem stable_wsRecvFrame (malloc : Bool) : (wsRecvFrame malloc).Stable := by
  apply (stable_recvAll 2).andThen
  intro h2
  apply (stable_recvLength _).andThen
  intro len
  exact stable_recvBody _ _ _ _

/-! ## Receiving frames -/

/-- One round of the loop that assembles the length. -/
theorem toNat_shift_or {len : UInt64} {b : UInt8} (h : len.toNat < 2 ^ 56) :
    (len <<< 8 ||| b.toUInt64).toNat = 256 * len.toNat + b.toNat := by
  have hb : b.toNat < 2 ^ 8 := b.toNat_lt
  have hshift : (len <<< 8).toNat = len.toNat <<< 8 := by
    rw [UInt64.toNat_shiftLeft]
    apply Nat.mod_eq_of_lt
    show len.toNat <<< 8 < 2 ^ 64
    rw [Nat.shiftLeft_eq]
    omega
  rw [UInt64.toNat_or, hshift, UInt8.toNat_toUInt64, ← Nat.shiftLeft_add_eq_or_of_lt hb,
    Nat.shiftLeft_eq]
  omega

theorem toNat_lengthLoop {bytes : Bytes} (h : bytes.length ≤ 8) :
    (bytes.foldl (fun (len : UInt64) b => len <<< 8 ||| b.toUInt64) 0).toNat =
      fromNetwork bytes := by
  induction bytes using List.reverseRecOn with
  | nil => rfl
  | append_singleton bytes b ih =>
    rw [List.length_append, List.length_singleton] at h
    have ih := ih (by omega)
    have hlt : fromNetwork bytes < 2 ^ 56 :=
      Nat.lt_of_lt_of_le (fromNetwork_lt bytes)
        (Nat.pow_le_pow_right (n := 256) (by decide) (by omega : bytes.length ≤ 7))
    rw [List.foldl_append, List.foldl_cons, List.foldl_nil, toNat_shift_or (by rw [ih]; exact hlt),
      ih, fromNetwork_append]

theorem recvLength_of_short {h1 : UInt8} {n : Nat} (hn : n ≤ 125)
    (h : h1 &&& 0x7F = UInt8.ofNat n) : recvLength h1 = .ret (UInt64.ofNat n) := by
  have hval : (UInt8.ofNat n).toUInt64 = UInt64.ofNat n := by
    apply UInt64.toNat_inj.mp
    rw [UInt8.toNat_toUInt64, UInt8.toNat_ofNat', UInt64.toNat_ofNat']
    omega
  have hne : ∀ c : Nat, 125 < c → c < 2 ^ 64 → UInt64.ofNat n ≠ UInt64.ofNat c := by
    intro c hc hlt he
    have := congrArg UInt64.toNat he
    rw [UInt64.toNat_ofNat', UInt64.toNat_ofNat'] at this
    omega
  simp only [recvLength, h, hval]
  have h126 : UInt64.ofNat n ≠ 126 := hne 126 (by decide) (by decide)
  have h127 : UInt64.ofNat n ≠ 127 := hne 127 (by decide) (by decide)
  rw [if_neg h126, if_neg h127]

theorem recvLength_of_126 {h1 : UInt8} (h : h1 &&& 0x7F = 126) :
    recvLength h1 = (recvAll 2).andThen fun ext =>
      .ret ((ext.getD 0 0).toUInt64 <<< 8 ||| (ext.getD 1 0).toUInt64) := by
  simp only [recvLength, h]
  rfl

theorem recvLength_of_127 {h1 : UInt8} (h : h1 &&& 0x7F = 127) :
    recvLength h1 = (recvAll 8).andThen fun ext =>
      .ret (ext.foldl (fun (len : UInt64) b => len <<< 8 ||| b.toUInt64) 0) := by
  simp only [recvLength, h]
  rfl

/-- The length of a header, in each of its forms. -/
theorem recvLength_reads (masked : Bool) {n : Nat} (h : n < 2 ^ 64) :
    (recvLength (lengthByte masked (lengthField n).1)).Reads (lengthField n).2 (UInt64.ofNat n) := by
  have hfield := lengthByte_field masked (lengthField_lt n)
  by_cases hshort : n ≤ 125
  · have hform : lengthField n = (n, []) := if_pos hshort
    simp only [hform] at hfield ⊢
    rw [recvLength_of_short hshort hfield]
    exact Reader.Reads.ret _
  · by_cases hmedium : n ≤ 65535
    · have hform : lengthField n = (126, networkOrder 2 n) := by
        rw [lengthField, if_neg hshort, if_pos hmedium]
      simp only [hform] at hfield ⊢
      have hread := recvAll_reads (networkOrder 2 n)
      rw [length_networkOrder] at hread
      have hval : ((networkOrder 2 n).getD 0 0).toUInt64 <<< 8 |||
          ((networkOrder 2 n).getD 1 0).toUInt64 = UInt64.ofNat n := by
        have hhigh : (UInt8.ofNat (n / 256)).toUInt64.toNat < 2 ^ 56 := by
          rw [UInt8.toNat_toUInt64]
          exact Nat.lt_trans (UInt8.toNat_lt _) (by decide)
        apply UInt64.toNat_inj.mp
        show ((UInt8.ofNat (n / 256)).toUInt64 <<< 8 ||| (UInt8.ofNat n).toUInt64).toNat = _
        rw [toNat_shift_or hhigh, UInt8.toNat_toUInt64, UInt8.toNat_ofNat', UInt8.toNat_ofNat',
          UInt64.toNat_ofNat']
        omega
      rw [recvLength_of_126 hfield, ← hval]
      exact hread.map _
    · have hform : lengthField n = (127, networkOrder 8 n) := by
        rw [lengthField, if_neg hshort, if_neg hmedium]
      simp only [hform] at hfield ⊢
      have hread := recvAll_reads (networkOrder 8 n)
      rw [length_networkOrder] at hread
      have hval : (networkOrder 8 n).foldl (fun (len : UInt64) b => len <<< 8 ||| b.toUInt64) 0 =
          UInt64.ofNat n := by
        apply UInt64.toNat_inj.mp
        rw [toNat_lengthLoop (by rw [length_networkOrder]), fromNetwork_networkOrder h,
          UInt64.toNat_ofNat', Nat.mod_eq_of_lt h]
      rw [recvLength_of_127 hfield, ← hval]
      exact hread.map _

theorem unmask_ofFn (key : MaskingKey) (payload : Bytes) :
    unmask (List.ofFn key) payload = applyMask key payload := by
  apply List.ext_getElem
  · simp [unmask]
  · intro i _ _
    have hlt : i % 4 < 4 := Nat.mod_lt _ (by decide)
    have hkey : (List.ofFn key).getD (i % 4) 0 = key (Fin.ofNat 4 i) := by
      rw [List.getD_eq_getElem _ _ (by rwa [List.length_ofFn]), List.getElem_ofFn]
      rfl
    simp only [unmask, applyMask, List.getElem_mapIdx, hkey]

theorem recvPayload_reads {payload : Bytes} {len : UInt64} (h : len.toNat = payload.length) :
    (if 0 < len then recvAll len.toNat else .ret []).Reads payload payload := by
  split
  · rw [h]
    exact recvAll_reads payload
  · next hzero =>
    have hnil : payload.length = 0 := by
      rw [← h]
      exact Nat.eq_zero_of_not_pos hzero
    rw [List.eq_nil_of_length_eq_zero hnil]
    exact Reader.Reads.ret []

theorem recvBody_reads (opcode : UInt8) (key : Option MaskingKey) {payload : Bytes}
    {len : UInt64} (hlen : len.toNat = payload.length) (h : payload.length ≤ wsMaxPayload) :
    (recvBody true opcode (if key.isSome then 1 else 0) len).Reads
      (maskBytes key ++ maskPayload key payload) ⟨opcode, payload⟩ := by
  apply Reader.Reads.require (by rw [hlen]; exact h)
  cases key with
  | none =>
    apply Reader.Reads.andThen (Reader.Reads.ret _)
    apply Reader.Reads.require rfl
    exact (recvPayload_reads hlen).map _
  | some key =>
    have hkey := recvAll_reads (List.ofFn key)
    rw [List.length_ofFn] at hkey
    apply Reader.Reads.andThen hkey
    apply Reader.Reads.require rfl
    have hmasked : len.toNat = (applyMask key payload).length := by
      rw [length_applyMask, hlen]
    have hpayload := (recvPayload_reads hmasked).map fun p =>
      (⟨opcode, unmask (List.ofFn key) p⟩ : Frame)
    rwa [unmask_ofFn, applyMask_applyMask] at hpayload

/-- `ws_recv_frame` takes in an unfragmented frame whose payload is not too long. -/
theorem wsRecvFrame_reads (opcode : Fin 16) (key : Option MaskingKey) {payload : Bytes}
    (h : payload.length ≤ wsMaxPayload) :
    (wsRecvFrame true).Reads (encodeFrame opcode key payload)
      ⟨UInt8.ofNat opcode, payload⟩ := by
  have hlt : payload.length < 2 ^ 64 := Nat.lt_of_le_of_lt h (by decide)
  have hlen : (UInt64.ofNat payload.length).toNat = payload.length := by
    rw [UInt64.toNat_ofNat', Nat.mod_eq_of_lt hlt]
  have hbody := recvBody_reads (UInt8.ofNat opcode) key hlen h
  rw [← lengthByte_masked key.isSome (lengthField_lt payload.length), ← opcodeByte] at hbody
  rw [← opcodeByte]
  apply Reader.Reads.andThen (recvAll_reads [_, _])
  exact Reader.Reads.andThen (recvLength_reads _ hlt) hbody

/-- A header that declares too long a payload is refused, whatever comes after it. -/
theorem wsRecvFrame_too_long (h0 : UInt8) (masked malloc : Bool) {n : Nat}
    (hmax : wsMaxPayload < n) (hn : n < 2 ^ 64) {inc : Incoming UInt8} {t : Bytes}
    (hinc : delivered inc = [h0, lengthByte masked (lengthField n).1] ++
      ((lengthField n).2 ++ t)) :
    wsRecvFrame malloc inc = none := by
  obtain ⟨inc', hhdr, hinc'⟩ := recvAll_reads _ inc _ hinc
  obtain ⟨inc'', hlen, -⟩ := recvLength_reads masked hn inc' t hinc'
  refine (Reader.andThen_of_eq hhdr _).trans ?_
  refine (Reader.andThen_of_eq hlen _).trans ?_
  apply Reader.require_neg
  rw [UInt64.toNat_ofNat', Nat.mod_eq_of_lt hn]
  exact Nat.not_le.mpr hmax

/-! ## Sending frames -/

theorem bigEndian_eq (k n : Nat) : bigEndian k n = networkOrder k n := by
  induction k with
  | zero => rfl
  | succ k ih =>
    rw [networkOrder_succ, bigEndian, ih, Nat.shiftRight_eq_div_pow, Nat.pow_mul]

/-- The bytes of `ws_send_text` are those of an unmasked text frame. -/
theorem wsSendText_bytes (msg : Bytes) : (wsSendText msg).flatten = encodeFrame 1 none msg := by
  have hheader : textHeader msg.length =
      [UInt8.ofNat (128 + 1), lengthByte false (lengthField msg.length).1] ++
        (lengthField msg.length).2 := by
    unfold textHeader lengthField
    split
    · simp [lengthByte]
    · split <;> simp [lengthByte, bigEndian_eq]
  have hpayload : (if 0 < msg.length then [msg] else []).flatten = msg := by
    cases msg <;> simp
  rw [wsSendText, List.flatten_cons, hheader, hpayload, List.append_assoc]
  rfl

theorem sendAll_wire {answers : List SendAnswer} {buf : Bytes}
    (h : (sendAll answers buf).result = some true) : (sendAll answers buf).wire = buf := by
  fun_induction sendAll answers buf with
  | case1 => rfl
  | case2 => cases h
  | case3 answers b buf ih => exact ih h
  | case4 => cases h
  | case5 => cases h
  | case6 w answers b buf hw ih =>
    simp only [Sent.after]
    rw [ih h, List.take_append_drop]

/-- What a call has sent that has succeeded. -/
theorem sendFrame_wire {answers : List SendAnswer} {calls : List Bytes}
    (h : (sendFrame answers calls).result = some true) :
    (sendFrame answers calls).wire = calls.flatten := by
  fun_induction sendFrame answers calls with
  | case1 => rfl
  | case2 answers buf calls out hout ih =>
    simp only [Sent.after, List.flatten_cons]
    rw [ih h, sendAll_wire hout]
  | case3 answers buf calls out hout => exact absurd h hout

/-- No call of `send` fails. -/
def NoneFails (answers : List SendAnswer) : Prop :=
  ∀ a ∈ answers, a ≠ .failed ∧ a ≠ .took 0

/-- The calls of `send` that take something. -/
def takes (answers : List SendAnswer) : Nat :=
  (answers.filter fun a => match a with | .took _ => true | _ => false).length

theorem sendAll_completes {answers : List SendAnswer} {buf : Bytes} (h : NoneFails answers)
    (hn : buf.length ≤ takes answers) :
    (sendAll answers buf).result = some true ∧ NoneFails (sendAll answers buf).rest ∧
      takes answers ≤ takes (sendAll answers buf).rest + buf.length := by
  fun_induction sendAll answers buf with
  | case1 answers => exact ⟨rfl, h, Nat.le_refl _⟩
  | case2 b buf => simp [takes] at hn
  | case3 answers b buf ih => exact ih (fun a ha => h a (List.mem_cons_of_mem _ ha)) hn
  | case4 answers b buf => exact absurd rfl (h _ List.mem_cons_self).1
  | case5 answers b buf => exact absurd rfl (h _ List.mem_cons_self).2
  | case6 w answers b buf hw ih =>
    have hcount : takes (.took w :: answers) = takes answers + 1 := rfl
    have hdrop : ((b :: buf).drop w).length = (b :: buf).length - w := List.length_drop
    rw [hcount] at hn ⊢
    obtain ⟨hres, hrest, hleft⟩ := ih (fun a ha => h a (List.mem_cons_of_mem _ ha)) (by omega)
    refine ⟨hres, hrest, ?_⟩
    simp only [Sent.after]
    simp only [List.length_cons] at hdrop ⊢
    omega

theorem sendFrame_completes {answers : List SendAnswer} {calls : List Bytes}
    (h : NoneFails answers) (hn : calls.flatten.length ≤ takes answers) :
    (sendFrame answers calls).result = some true := by
  fun_induction sendFrame answers calls with
  | case1 => rfl
  | case2 answers buf calls out hout ih =>
    rw [List.flatten_cons, List.length_append] at hn
    have hbuf : buf.length ≤ takes answers := by omega
    obtain ⟨-, hrest, hleft⟩ := sendAll_completes h hbuf
    exact ih hrest (by simp only [out] at hleft ⊢; omega)
  | case3 answers buf calls out hout =>
    rw [List.flatten_cons, List.length_append] at hn
    have hbuf : buf.length ≤ takes answers := by omega
    exact absurd (sendAll_completes h hbuf).1 hout

/-! ## The round trip -/

/-- How a message is put on the stream. The server itself sends texts without a mask; a client
chooses the opcode and the mask of each frame. -/
inductive Encoding
  /-- by `ws_send_text` -/
  | text
  /-- as a client frame -/
  | client (opcode : Fin 16) (key : Option MaskingKey)

/-- A message with the way in which it is sent. Its payload may have any length; what is longer
than the limit of the receiver is a matter of the laws. -/
structure Message where
  payload : Bytes
  encoding : Encoding

/-- What the receiver is to hand out for a message. -/
def Message.frame (m : Message) : Frame :=
  match m.encoding with
  | .text => ⟨1, m.payload⟩
  | .client opcode _ => ⟨UInt8.ofNat opcode, m.payload⟩

/-- The bytes that put a message on the stream; those of `ws_send_text` are what a call
has sent that has succeeded, whatever its calls of `send` answered. -/
def Encoded (m : Message) (wire : Bytes) : Prop :=
  match m.encoding with
  | .text => ∃ answers, (sendFrame answers (wsSendText m.payload)).result = some true ∧
      wire = (sendFrame answers (wsSendText m.payload)).wire
  | .client opcode key => wire = encodeFrame opcode key m.payload

/-- Every message is received for what it is. -/
theorem Encoded.reads {m : Message} {wire : Bytes} (h : Encoded m wire)
    (hm : m.payload.length ≤ wsMaxPayload) : (wsRecvFrame true).Reads wire m.frame := by
  obtain ⟨payload, encoding⟩ := m
  cases encoding with
  | text =>
    obtain ⟨answers, hres, rfl⟩ := h
    rw [sendFrame_wire hres, wsSendText_bytes]
    exact wsRecvFrame_reads 1 none hm
  | client opcode key =>
    obtain rfl := h
    exact wsRecvFrame_reads opcode key hm

/-- Without a buffer for the payload there is no frame. -/
theorem wsRecvFrame_no_memory (inc : Incoming UInt8) : wsRecvFrame false inc = none := by
  have hbody : ∀ opcode masked len inc, recvBody false opcode masked len inc = none := by
    intro opcode masked len inc
    unfold recvBody
    by_cases hlen : len.toNat ≤ wsMaxPayload
    · rw [Reader.require_pos hlen]
      exact Reader.andThen_fails (fun _ _ => Reader.require_neg (by decide) _ _) inc
    · exact Reader.require_neg hlen _ _
  apply Reader.andThen_fails
  intro h2
  apply Reader.andThen_fails
  intro len
  exact hbody _ _ _

/-- **Frames survive the stream.** Four laws of the two ends of a connection, each for every way
in which the kernel cuts the bytes and for every placement of `EINTR`. What `ws_send_text` has
to send goes out whole when no `send` fails. A client's frames, each masked or not and of at
most `WS_MAX_PAYLOAD` bytes, come out of as many calls of `ws_recv_frame` one by one, with their
bytes and no more taken from the stream. A header that declares more than that many bytes is
refused, however much of the frame has arrived, and so is a frame of which a byte is missing. -/
theorem wsRecvFrame_roundtrip :
    -- A call of `ws_send_text` succeeds on any answers of `send` without a failure.
    (∀ (msg : Bytes) (answers : List SendAnswer), NoneFails answers →
      (wsSendText msg).flatten.length ≤ takes answers →
        (sendFrame answers (wsSendText msg)).result = some true) ∧
    -- `n` calls of `ws_recv_frame` return the first `n` messages and take their bytes.
    (∀ (ms : List Message) (wires : List Bytes) (inc : Incoming UInt8) (t : Bytes),
      (∀ m ∈ ms, m.payload.length ≤ wsMaxPayload) → List.Forall₂ Encoded ms wires →
      delivered inc = wires.flatten ++ t →
        ∀ n ≤ ms.length, ((wsRecvFrame true).collect n inc).1 = (ms.take n).map Message.frame ∧
          delivered ((wsRecvFrame true).collect n inc).2 = (wires.drop n).flatten ++ t) ∧
    -- A frame that declares more than `WS_MAX_PAYLOAD` bytes, whole or in part, is refused.
    (∀ (h0 : UInt8) (masked malloc : Bool) (len : Nat) (inc : Incoming UInt8) (t : Bytes),
      wsMaxPayload < len → len < 2 ^ 64 →
      delivered inc <+: [h0, lengthByte masked (lengthField len).1] ++ ((lengthField len).2 ++ t) →
        wsRecvFrame malloc inc = none) ∧
    -- So is a message that is cut short.
    ∀ (m : Message) (wire : Bytes) (malloc : Bool) (inc : Incoming UInt8) (t : Bytes),
      m.payload.length ≤ wsMaxPayload → Encoded m wire → wire = delivered inc ++ t → t ≠ [] →
        wsRecvFrame malloc inc = none := by
  refine ⟨?_, ?_, ?_, ?_⟩
  · intro msg answers hanswers hlen
    exact sendFrame_completes hanswers hlen
  · intro ms wires inc t hms hwires hinc n hn
    have hreads : List.Forall₂ (wsRecvFrame true).Reads wires (ms.map Message.frame) := by
      apply List.forall₂_map_right_iff.mpr
      apply List.Forall₂.flip
      apply List.Forall₂.imp _ ((List.forall₂_and_left _ _).mpr ⟨hms, hwires⟩)
      intro m wire h
      exact h.2.reads h.1
    rw [List.map_take]
    exact Reader.Reads.collect hreads hinc n (by rwa [List.length_map])
  · intro h0 masked malloc len inc t hmax hlen hinc
    have hwhole := wsRecvFrame_too_long h0 masked malloc hmax hlen (t := t)
      ((delivered_putBack _ []).trans (List.append_nil _))
    apply (stable_wsRecvFrame malloc).refuses_part hwhole
    rw [delivered_putBack]
    exact hinc.trans (List.prefix_append _ _)
  · intro m wire malloc inc t hm hwire hcut ht
    cases malloc with
    | false => exact wsRecvFrame_no_memory inc
    | true => exact (hwire.reads hm).cut_short (stable_wsRecvFrame true) hcut ht

/-- A text message and a masked frame, cut in odd places; a header of 2^20 + 1 bytes; a
message without its last byte. -/
theorem wsRecvFrame_roundtrip_cut :
    (sendFrame [.took 1, .eintr, .took 1, .took 2, .took 9] (wsSendText [104, 105])).result =
        some true ∧
      ((wsRecvFrame true).collect 2
        [.data [0x81], .eintr, .data [2, 104, 105, 0x82, 0x81, 1], .data [2, 3, 4, 6]]).1 =
          [⟨1, [104, 105]⟩, ⟨2, [7]⟩] ∧
      wsRecvFrame true [.data [0x81, 127, 0, 0, 0, 0, 0, 16, 0, 1]] = none ∧
      wsRecvFrame true [.data [0x81, 2], .data [104]] = none := by
  obtain ⟨hsend, hrecv, hlong, hshort⟩ := wsRecvFrame_roundtrip
  refine ⟨hsend _ _ (by simp [NoneFails]) (by decide), ?_, ?_, ?_⟩
  · refine (hrecv [⟨[104, 105], .text⟩, ⟨[7], .client 2 (some fun i => UInt8.ofNat (i + 1))⟩]
      [[0x81, 2, 104, 105], [0x82, 0x81, 1, 2, 3, 4, 6]] _ [] ?_ ?_ (by decide) 2
      (Nat.le_refl 2)).1
    · simp [wsMaxPayload]
    · exact .cons ⟨[.took 1, .eintr, .took 3, .took 2], by decide, by decide⟩
        (.cons (by decide : _ = encodeFrame _ _ _) .nil)
  · exact hlong 0x81 false true (2 ^ 20 + 1) _ [] (by decide) (by decide)
      ⟨[], by decide⟩
  · exact hshort ⟨[104, 105], .text⟩ [0x81, 2, 104, 105] true _ [105] (by simp [wsMaxPayload])
      ⟨[.took 4, .took 2], by decide, by decide⟩ (by decide) (by decide)

end TelemetryTestbed.WebSocket
