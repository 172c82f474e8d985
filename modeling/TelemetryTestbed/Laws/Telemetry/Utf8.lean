import TelemetryTestbed.Laws.Telemetry.Replay
import TelemetryTestbed.Laws.Telemetry.RoundTrip

/-!
# Text frames and UTF-8

`safe_copy` cuts an id to the bytes its array has room for and does not look where the
characters begin. The formats around the ids are ASCII, so a text is valid UTF-8
exactly if every id in it is, and that is so exactly if no cut goes through a
character (`utf8_texts_iff`).

The law is an equivalence, so the condition names every bad message. The condition for one id
is stated at the byte where it is cut: a character begins there or the id fits. The texts
around the ids are ASCII, and a text of ASCII and UTF-8 parts is UTF-8 exactly if the parts
are.
-/

namespace TelemetryTestbed.Telemetry

open TelemetryTestbed.Lib Lib.Json Persistence

/-! ## The ids of a message -/

/-- The strings of a message, each with the capacity of the array it is copied to. -/
def PbTelemetryState.strings (st : PbTelemetryState) : List (Nat × Option Bytes) :=
  [(64, st.header.bind PbHeader.robotId), (32, st.imuId), (32, st.tiltId),
    (32, st.motor1.bind PbMotorState.motorId), (32, st.motor2.bind PbMotorState.motorId)]

/-- Every string of the message is valid UTF-8. -/
def PbTelemetryState.Utf8Strings (st : PbTelemetryState) : Prop :=
  ∀ f ∈ st.strings, ∀ s ∈ f.2, IsUtf8 s

/-- The first byte for which an array has no room begins a character. -/
def CutsBetween (cap : Nat) (s : Bytes) : Prop :=
  ∀ b, (cstr s)[cap - 1]? = some b → b.IsUTF8FirstByte

instance decidableCutsBetween (cap : Nat) : DecidablePred (CutsBetween cap) := fun s =>
  match h : (cstr s)[cap - 1]? with
  | none => isTrue fun _ hb => by cases h.symm.trans hb
  | some b =>
    decidable_of_iff b.IsUTF8FirstByte
      ⟨fun hb _ hc => by cases h.symm.trans hc; exact hb, fun hall => hall b h⟩

/-- No id of the message is cut inside a character. -/
def PbTelemetryState.CutsBetweenCharacters (st : PbTelemetryState) : Prop :=
  ∀ f ∈ st.strings, ∀ s ∈ f.2, CutsBetween f.1 s

instance decidableUtf8Strings : DecidablePred PbTelemetryState.Utf8Strings := fun st =>
  inferInstanceAs (Decidable (∀ f ∈ st.strings, ∀ s ∈ f.2, IsUtf8 s))

instance decidableCutsBetweenCharacters : DecidablePred PbTelemetryState.CutsBetweenCharacters :=
  fun st => inferInstanceAs (Decidable (∀ f ∈ st.strings, ∀ s ∈ f.2, CutsBetween f.1 s))

/-- The ids of a state. -/
def TelemetryState.ids (s : TelemetryState) : List Bytes :=
  [s.robotId.bytes, s.imuId.bytes, s.tiltId.bytes, s.motor1.id.bytes, s.motor2.id.bytes]

/-- The ids, the broadcast text and the text of the row are valid UTF-8. -/
structure TelemetryState.Utf8Texts (s : TelemetryState) : Prop where
  ids : ∀ id ∈ s.ids, IsUtf8 id
  broadcast : ∀ text, telemetryStateToJsonAlloc s = some text → IsUtf8 text
  replay : ∀ text, appendRowAsSampleJson (insertState s) = some text → IsUtf8 text

/-! ## A copy -/

/-- What C sees of a text is a text. -/
theorem isUtf8_cstr {s : Bytes} (h : IsUtf8 s) : IsUtf8 (cstr s) := by
  by_cases hzero : (0 : UInt8) ∈ s
  · obtain ⟨front, back, rfl, hfront⟩ := List.eq_append_cons_of_mem hzero
    have hcut : cstr (front ++ 0 :: back) = front := by
      rw [cstr_append hfront]
      exact List.append_nil front
    rw [hcut]
    exact ((isUtf8_append_cons (by decide)).mp h).1
  · rw [cstr_eq_self hzero]
    exact h

/-- A copy is a text exactly if the cut is between characters. -/
theorem isUtf8_safeCopy_iff {cap : Nat} {src : Option Bytes} {fallback : Bytes}
    (hfallback : IsUtf8 ((cstr fallback).take (cap - 1))) (h : ∀ s ∈ src, IsUtf8 s) :
    IsUtf8 (safeCopy cap src fallback).bytes ↔ ∀ s ∈ src, CutsBetween cap s := by
  cases src with
  | none => exact ⟨fun _ _ hs => absurd hs (Option.not_mem_none _), fun _ => hfallback⟩
  | some s =>
    have hs := isUtf8_cstr (h s rfl)
    simp only [safeCopy, snprintf, Option.mem_some_iff, forall_eq']
    by_cases hempty : cstr s = []
    · rw [if_pos hempty, CutsBetween, hempty]
      exact ⟨fun _ _ hb => (Option.some_ne_none _ hb.symm).elim, fun _ => hfallback⟩
    · rw [if_neg hempty]
      exact isUtf8_take_iff hs (cap - 1)

/-! ## The texts -/

/-- The document of a sample is UTF-8 exactly if its ids are. -/
theorem utf8_doc (f : SampleFields) : f.doc.Utf8 ↔
    (IsUtf8 f.robotId ∧ IsUtf8 f.imuId ∧ IsUtf8 f.tiltId) ∧
      ∀ m1 m2, f.motors = some (m1, m2) → IsUtf8 m1.id ∧ IsUtf8 m2.id := by
  cases hmotors : f.motors with
  | none =>
    simp [SampleFields.doc, SampleFields.members, hmotors, motorMembers, Doc.Utf8,
      Doc.utf8Members, utf8_triple]
  | some motors =>
    obtain ⟨m1, m2⟩ := motors
    simp [SampleFields.doc, SampleFields.members, hmotors, motorMembers, Doc.Utf8,
      Doc.utf8Members, utf8_triple, utf8_motor, and_assoc]

theorem isUtf8_text (f : SampleFields) : IsUtf8 f.text ↔ f.doc.Utf8 := by
  rw [SampleFields.text, Doc.isUtf8_paste f.doc [] (framed_doc f)]
  exact and_iff_left isUtf8_nil

/-- The row keeps the ids of its state. -/
theorem ids_insertState (s : TelemetryState) :
    (insertState s).fields.robotId = s.robotId.bytes ∧
      (insertState s).fields.imuId = s.imuId.bytes ∧
      (insertState s).fields.tiltId = s.tiltId.bytes ∧
      ∃ m1 m2, (insertState s).fields.motors = some (m1, m2) ∧ m1.id = s.motor1.id.bytes ∧
        m2.id = s.motor2.id.bytes :=
  ⟨text_of_bindText (insertState s) 1 s.robotId.noNul rfl,
    text_of_bindText (insertState s) 4 s.imuId.noNul rfl,
    text_of_bindText (insertState s) 11 s.tiltId.noNul rfl, _, _, rfl,
    text_of_bindText (insertState s) 16 s.motor1.id.noNul rfl,
    text_of_bindText (insertState s) 22 s.motor2.id.noNul rfl⟩

/-- The texts of a state are UTF-8 exactly if its ids are. -/
theorem utf8Texts_iff (s : TelemetryState) : s.Utf8Texts ↔ ∀ id ∈ s.ids, IsUtf8 id := by
  refine ⟨TelemetryState.Utf8Texts.ids, fun hids => ⟨hids, ?_, ?_⟩⟩
  · intro text htext
    cases (telemetryStateToJsonAlloc_eq s).symm.trans htext
    simp only [TelemetryState.ids, List.forall_mem_cons] at hids
    rw [isUtf8_text, utf8_doc]
    refine ⟨⟨hids.1, hids.2.1, hids.2.2.1⟩, ?_⟩
    rintro m1 m2 hmotors
    cases hmotors
    exact ⟨hids.2.2.2.1, hids.2.2.2.2.1⟩
  · intro text htext
    cases (appendRowAsSampleJson_eq (insertState s)).symm.trans htext
    obtain ⟨hrobot, himu, htilt, m1, m2, hmotors, hm1, hm2⟩ := ids_insertState s
    simp only [TelemetryState.ids, List.forall_mem_cons, ← hrobot, ← himu, ← htilt, ← hm1, ← hm2] at hids
    rw [isUtf8_text, utf8_doc]
    refine ⟨⟨hids.1, hids.2.1, hids.2.2.1⟩, ?_⟩
    rintro _ _ h
    cases hmotors.symm.trans h
    exact ⟨hids.2.2.2.1, hids.2.2.2.2.1⟩

/-! ## A message -/

/-- Each id of the state is the copy of its string. -/
theorem ids_telemetryStateOf (st : PbTelemetryState) (receivedAtNs : Int64)
    (raw : Option Bytes) : (telemetryStateOf st receivedAtNs raw).ids =
      [(safeCopy 64 (st.header.bind PbHeader.robotId) (ascii "robot")).bytes,
        (safeCopy 32 st.imuId (ascii "imu0")).bytes,
        (safeCopy 32 st.tiltId (ascii "tilt0")).bytes,
        (safeCopy 32 (st.motor1.bind PbMotorState.motorId) (ascii "motor1")).bytes,
        (safeCopy 32 (st.motor2.bind PbMotorState.motorId) (ascii "motor2")).bytes] := by
  have hmotor : ∀ (m : Option PbMotorState) (fallback : Bytes),
      (motorOf m fallback).id = safeCopy 32 (m.bind PbMotorState.motorId) fallback := by
    intro m fallback
    cases m <;> rfl
  rw [← hmotor, ← hmotor]
  unfold TelemetryState.ids telemetryStateOf
  cases st.header <;> rfl

/-- **When the texts are UTF-8.** The message is any whose strings are UTF-8, as Protobuf
demands of them. The five ids of the state that `on_message` makes of it, and the broadcast and
the row text with them, are then all valid UTF-8 exactly if no id is longer than its array in
such a way that the cut goes through a character. `safe_copy` cuts at a byte and does not look.
-/
theorem utf8_texts_iff (st : PbTelemetryState) (receivedAtNs : Int64) (raw : Option Bytes)
    (h : st.Utf8Strings) :
    (telemetryStateOf st receivedAtNs raw).Utf8Texts ↔ st.CutsBetweenCharacters := by
  simp only [PbTelemetryState.Utf8Strings, PbTelemetryState.strings, List.forall_mem_cons] at h
  obtain ⟨hrobot, himu, htilt, hm1, hm2, -⟩ := h
  have hrobot := @isUtf8_safeCopy_iff 64 _ (ascii "robot") (by decide) hrobot
  have himu := @isUtf8_safeCopy_iff 32 _ (ascii "imu0") (by decide) himu
  have htilt := @isUtf8_safeCopy_iff 32 _ (ascii "tilt0") (by decide) htilt
  have hm1 := @isUtf8_safeCopy_iff 32 _ (ascii "motor1") (by decide) hm1
  have hm2 := @isUtf8_safeCopy_iff 32 _ (ascii "motor2") (by decide) hm2
  rw [utf8Texts_iff, ids_telemetryStateOf]
  simp only [PbTelemetryState.CutsBetweenCharacters, PbTelemetryState.strings,
    List.forall_mem_cons, hrobot, himu, htilt, hm1, hm2, List.not_mem_nil, false_imp_iff,
    implies_true]

theorem utf8_texts_named : (named (ascii "robot_sim")).Utf8Texts :=
  (utf8_texts_iff { PbTelemetryState.empty with header := some ⟨some (ascii "robot_sim"), 0, 0⟩ }
    0 none (by decide)).mpr (by decide)

/-- A robot id of 62 letters and one of two bytes: the array has room for the first of them. -/
theorem long_name_not_utf8 :
    IsUtf8 (List.replicate 62 97 ++ [0xC3, 0xA9]) ∧
      ¬ (named (List.replicate 62 97 ++ [0xC3, 0xA9])).Utf8Texts := by
  rw [utf8Texts_iff]
  decide

end TelemetryTestbed.Telemetry
