import TelemetryTestbed.Laws.Telemetry.Sample

/-!
# Reading a sample text back

A sample text parses and gives back its ids and integers exactly if every id is
plain UTF-8 and every printed number is finite (`sample_roundTrips_iff`). Neither
emitter escapes an id or looks at a number, so an id with a quotation mark, or a NaN,
makes the whole text unreadable, and a history reply with such a row as well
(`history_roundTrips_iff`).

The equivalence comes from the library of pasted documents; what is left to show here is that
a sample is such a document and that its frame is sound. Values of `%f` are not given back
digit by digit: they are only required to be numbers.
-/

namespace TelemetryTestbed.Telemetry

open TelemetryTestbed.Lib Lib.Json Persistence

/-! ## What is given back -/

/-- The member of an object. -/
def member (k : String) (v : Json) : Option Json := get? (ascii k) v.entries

def MotorSample.ReadsBack (m : MotorSample) (v : Json) : Prop :=
  member "id" v = some (.str m.id) ∧ member "tics" v = some (.num m.tics 0) ∧
    member "rpm" v = some (.num m.rpm 0) ∧
    member "temperature_c" v = some (.num m.temperatureC 0) ∧
    member "voltage_power_stage_mv" v = some (.num m.voltagePowerStageMv 0) ∧
    member "current_power_stage_ma" v = some (.num m.currentPowerStageMa 0)

/-- The value of the optional section gives the motors back. -/
def motorsReadBack (m1 m2 : MotorSample) (v : Json) : Prop :=
  ∃ motors, member "motors" v = some motors ∧
    (∃ v1, member "motor1" motors = some v1 ∧ m1.ReadsBack v1) ∧
    (∃ v2, member "motor2" motors = some v2 ∧ m2.ReadsBack v2)

/-- The value has the ids and the integers of the sample under their names. -/
def SampleFields.ReadsBack (f : SampleFields) (v : Json) : Prop :=
  member "t_ns" v = some (.num f.tNs.toInt 0) ∧ member "seq" v = some (.num f.seq 0) ∧
    member "msg_ts_ns" v = some (.num f.msgTsNs 0) ∧
    member "robot_id" v = some (.str f.robotId) ∧ member "imu_id" v = some (.str f.imuId) ∧
    member "tilt_id" v = some (.str f.tiltId) ∧
    member "tilt_status" v = some (.num f.tiltStatus 0) ∧
    match f.motors with
    | some (m1, m2) => motorsReadBack m1 m2 v
    | none => True

/-- A text that can stand between quotation marks. -/
def PlainText (t : Bytes) : Prop := Plain t ∧ IsUtf8 t

instance : DecidablePred PlainText := fun t => inferInstanceAs (Decidable (Plain t ∧ IsUtf8 t))

def Triple.Finite (v : Triple) : Prop := v.x.IsFinite ∧ v.y.IsFinite ∧ v.z.IsFinite

/-- Plain ids and finite numbers. -/
def SampleFields.Clean (f : SampleFields) : Prop :=
  (PlainText f.robotId ∧ PlainText f.imuId ∧ PlainText f.tiltId) ∧
    (f.accel.Finite ∧ f.gyro.Finite ∧ f.tilt.Finite) ∧
    match f.motors with
    | some (m1, m2) => PlainText m1.id ∧ PlainText m2.id
    | none => True

/-! ## The document -/

theorem silent_doc (v : Triple) : v.doc.Silent :=
  ⟨True.intro, True.intro, True.intro, True.intro⟩

theorem givesBack_motor {m : MotorSample} {v : Json} : m.doc.GivesBack v ↔ m.ReadsBack v := by
  simp only [MotorSample.doc, Doc.GivesBack, Doc.membersBack, Doc.Silent, false_or,
    exists_eq_right, and_true, MotorSample.ReadsBack, member]

theorem givesBack_doc {f : SampleFields} {v : Json} : f.doc.GivesBack v ↔ f.ReadsBack v := by
  have hmotor : ∀ m : MotorSample, ¬ m.doc.Silent := fun m h => h.1
  unfold SampleFields.ReadsBack
  cases hmotors : f.motors with
  | none =>
    simp only [SampleFields.doc, SampleFields.members, hmotors, motorMembers, Doc.GivesBack, Doc.membersBack,
      Doc.Silent, silent_doc, true_or, false_or, true_and, exists_eq_right, and_true, member]
  | some motors =>
    obtain ⟨m1, m2⟩ := motors
    simp only [SampleFields.doc, SampleFields.members, hmotors, motorMembers, Doc.GivesBack, Doc.membersBack,
      Doc.Silent, Doc.silentMembers, silent_doc, hmotor, true_or, false_or, false_and, true_and,
      exists_eq_right, and_true, member, givesBack_motor, motorsReadBack]

theorem clean_triple (v : Triple) : v.doc.Clean ↔ v.Finite := by
  simp only [Triple.doc, Doc.Clean, Doc.cleanMembers, Doc.atom_format6_iff, and_true, Triple.Finite]

/-- The constant member `type` is a value. -/
theorem atom_type {name : String} {t : Bytes} (h : ascii name = 0x22 :: (t ++ [0x22]))
    (ht : Plain t) : Atom (ascii name) := h ▸ Doc.atom_quoted ht

theorem isFinite_tSec (ns : Int64) : (tSec ns).IsFinite :=
  Double.isFinite_divNat (Double.isFinite_ofRatio _ _ _) _

theorem atom_telemetry : Atom (ascii "\"telemetry\"") :=
  atom_type (t := ascii "telemetry") rfl (forall_mem_of_all rfl)

theorem utf8_triple (v : Triple) : v.doc.Utf8 :=
  ⟨True.intro, True.intro, True.intro, True.intro⟩

theorem clean_motor (m : MotorSample) : m.doc.Clean ↔ Plain m.id := by
  simp only [MotorSample.doc, Doc.Clean, Doc.cleanMembers, and_true]

theorem utf8_motor (m : MotorSample) : m.doc.Utf8 ↔ IsUtf8 m.id := by
  simp only [MotorSample.doc, Doc.Utf8, Doc.utf8Members, and_true]

/-- The document is clean UTF-8 exactly if its ids are plain and its numbers finite. -/
theorem clean_doc (f : SampleFields) : f.doc.Clean ∧ f.doc.Utf8 ↔ f.Clean := by
  unfold SampleFields.Clean PlainText
  cases hmotors : f.motors with
  | none =>
    simp only [SampleFields.doc, SampleFields.members, hmotors, motorMembers, Doc.Clean, Doc.cleanMembers, Doc.Utf8,
      Doc.utf8Members, clean_triple, utf8_triple, atom_telemetry, Doc.atom_format6_iff,
      isFinite_tSec, true_and, and_true]
    tauto
  | some motors =>
    simp only [SampleFields.doc, SampleFields.members, hmotors, motorMembers, Doc.Clean, Doc.cleanMembers, Doc.Utf8,
      Doc.utf8Members, clean_triple, utf8_triple, clean_motor, utf8_motor, atom_telemetry,
      Doc.atom_format6_iff, isFinite_tSec, true_and, and_true]
    tauto

theorem framed_triple (v : Triple) : v.doc.Framed := by
  refine Doc.framedMembers_of [ascii "x", ascii "y", ascii "z"] rfl (by decide)
    (by decide) ?_
  simp only [List.forall_mem_cons, Doc.Framed, Doc.settled_format6, true_and]
  exact fun m hm => absurd hm List.not_mem_nil

theorem framed_motor (m : MotorSample) : m.doc.Framed := by
  refine Doc.framedMembers_of [ascii "id", ascii "tics", ascii "rpm", ascii "temperature_c",
    ascii "voltage_power_stage_mv", ascii "current_power_stage_ma"] rfl (by decide)
    (by decide) ?_
  simp only [List.forall_mem_cons, Doc.Framed, true_and]
  exact fun m hm => absurd hm List.not_mem_nil

theorem settled_telemetry : Doc.Settled (ascii "\"telemetry\"") :=
  ⟨forall_mem_of_all rfl, Or.inl atom_telemetry⟩

theorem framed_motorMembers (motors : Option (MotorSample × MotorSample)) :
    ∀ m ∈ motorMembers motors, m.2.Framed := by
  cases motors with
  | none => exact fun m hm => absurd hm List.not_mem_nil
  | some motors =>
    intro m hm
    rw [List.mem_singleton.mp hm]
    refine Doc.framedMembers_of [ascii "motor1", ascii "motor2"] rfl (by decide)
      (by decide) ?_
    simp only [List.forall_mem_cons, framed_motor, true_and]
    exact fun m hm => absurd hm List.not_mem_nil

/-- The names of a sample in front of the motors. -/
def sampleNames : List Bytes :=
  [ascii "type", ascii "t", ascii "t_ns", ascii "seq", ascii "msg_ts_ns", ascii "robot_id",
    ascii "imu_id", ascii "tilt_id", ascii "tilt_status", ascii "accel", ascii "gyro",
    ascii "tilt"]

theorem framed_doc (f : SampleFields) : f.doc.Framed := by
  have hdocs : ∀ m ∈ f.members, m.2.Framed := by
    simp only [SampleFields.members, List.forall_mem_cons, Doc.Framed, settled_telemetry,
      Doc.settled_format6, framed_triple, true_and]
    exact framed_motorMembers f.motors
  cases hmotors : f.motors with
  | none =>
    exact Doc.framedMembers_of sampleNames (by rw [SampleFields.members, hmotors]; rfl)
      (by decide) (by decide) hdocs
  | some motors =>
    exact Doc.framedMembers_of (sampleNames ++ [ascii "motors"])
      (by rw [SampleFields.members, hmotors]; rfl) (by decide) (by decide) hdocs

/-! ## One sample -/

theorem SampleFields.ReadsBack.eq_obj {f : SampleFields} {v : Json} (h : f.ReadsBack v) :
    ∃ ms, v = .obj ms := by
  cases v with
  | obj ms => exact ⟨ms, rfl⟩
  | _ => cases h.1

/-- The text of a sample is read back exactly if the sample is clean. -/
theorem sample_roundTrips_iff (f : SampleFields) :
    (∃ ms, parse f.text = some (.obj ms) ∧ f.ReadsBack (.obj ms)) ↔ f.Clean := by
  rw [← clean_doc, ← parse_paste_iff (framed_doc f)]
  constructor
  · rintro ⟨ms, hparse, hback⟩
    exact ⟨.obj ms, hparse, givesBack_doc.mpr hback⟩
  · rintro ⟨v, hparse, hback⟩
    obtain ⟨ms, rfl⟩ := (givesBack_doc.mp hback).eq_obj
    exact ⟨ms, hparse, givesBack_doc.mp hback⟩

/-! ## The history -/

/-- The history reply, as a document. -/
def historyDoc (fs : List SampleFields) : Doc :=
  .obj [(ascii "type", .raw (ascii "\"history\"")), (ascii "items", .arr (fs.map SampleFields.doc))]

/-- The value has the samples as its items. -/
def HistoryReadsBack (fs : List SampleFields) (v : Json) : Prop :=
  ∃ items, member "items" v = some (.arr items) ∧ List.Forall₂ SampleFields.ReadsBack fs items

theorem elementsBack_doc {fs : List SampleFields} {vs : List Json} :
    Doc.elementsBack (fs.map SampleFields.doc) vs ↔ List.Forall₂ SampleFields.ReadsBack fs vs := by
  induction fs generalizing vs with
  | nil => exact List.forall₂_nil_left_iff.symm
  | cons f fs ih =>
    rw [List.map_cons, Doc.elementsBack, List.forall₂_cons_left_iff]
    constructor
    · rintro ⟨v, vs', rfl, hv, hvs⟩
      exact ⟨v, vs', givesBack_doc.mp hv, ih.mp hvs, rfl⟩
    · rintro ⟨v, vs', hv, hvs, rfl⟩
      exact ⟨v, vs', rfl, givesBack_doc.mpr hv, ih.mpr hvs⟩

theorem givesBack_historyDoc {fs : List SampleFields} {v : Json} :
    (historyDoc fs).GivesBack v ↔ HistoryReadsBack fs v := by
  simp only [historyDoc, Doc.GivesBack, Doc.membersBack, Doc.Silent, true_or, false_or, true_and,
    and_true, elementsBack_doc, HistoryReadsBack, member]
  constructor
  · rintro ⟨_, hget, items, rfl, hitems⟩
    exact ⟨items, hget, hitems⟩
  · rintro ⟨items, hget, hitems⟩
    exact ⟨_, hget, items, rfl, hitems⟩

theorem clean_elements_doc (fs : List SampleFields) :
    Doc.cleanElements (fs.map SampleFields.doc) ∧ Doc.utf8Elements (fs.map SampleFields.doc) ↔
      ∀ f ∈ fs, f.Clean := by
  induction fs with
  | nil => exact ⟨fun _ f hf => absurd hf List.not_mem_nil, fun _ => ⟨True.intro, True.intro⟩⟩
  | cons f fs ih =>
    rw [List.map_cons, Doc.cleanElements, Doc.utf8Elements, List.forall_mem_cons, ← ih,
      ← clean_doc]
    tauto

theorem atom_history : Atom (ascii "\"history\"") :=
  atom_type (t := ascii "history") rfl (forall_mem_of_all rfl)

theorem clean_historyDoc (fs : List SampleFields) :
    (historyDoc fs).Clean ∧ (historyDoc fs).Utf8 ↔ ∀ f ∈ fs, f.Clean := by
  rw [← clean_elements_doc]
  simp only [historyDoc, Doc.Clean, Doc.cleanMembers, Doc.Utf8, Doc.utf8Members, atom_history,
    true_and, and_true]

theorem framed_elements_doc (fs : List SampleFields) :
    Doc.framedElements (fs.map SampleFields.doc) := by
  induction fs with
  | nil => exact True.intro
  | cons f fs ih => exact ⟨⟨f.members, rfl⟩, framed_doc f, ih⟩

theorem framed_historyDoc (fs : List SampleFields) : (historyDoc fs).Framed := by
  refine Doc.framedMembers_of [ascii "type", ascii "items"] rfl (by decide)
    (by decide) ?_
  simp only [List.forall_mem_cons, Doc.Framed, framed_elements_doc, true_and]
  exact ⟨⟨forall_mem_of_all rfl, Or.inl atom_history⟩, fun m hm => absurd hm List.not_mem_nil⟩

/-- Behind the first item stand the others, each behind a comma. -/
theorem joinItems_cons (f : SampleFields) (fs : List SampleFields) (r : Bytes) :
    joinItems ((f :: fs).map SampleFields.text) ++ 0x5D :: r =
      f.doc.paste (Doc.pasteElements (fs.map SampleFields.doc) r) := by
  induction fs generalizing f with
  | nil => exact (Doc.paste_eq_append f.doc _).symm
  | cons g fs ih =>
    rw [List.map_cons, List.map_cons, joinItems, List.append_assoc, ← List.map_cons, ih g,
      List.map_cons, Doc.pasteElements, List.append_assoc, Doc.paste_eq_append f.doc]
    · rfl
    · exact List.cons_ne_nil _ _

theorem joinItems_eq (fs : List SampleFields) (r : Bytes) :
    0x5B :: (joinItems (fs.map SampleFields.text) ++ 0x5D :: r) =
      (Doc.arr (fs.map SampleFields.doc)).paste r := by
  cases fs with
  | nil => rfl
  | cons f fs => rw [joinItems_cons, List.map_cons, Doc.paste]

theorem historyDoc_paste (fs : List SampleFields) :
    (historyDoc fs).paste [] = ascii "\x7b\"type\":\"history\",\"items\":[" ++
      joinItems (fs.map SampleFields.text) ++ ascii "]\x7d" := by
  show _ = ascii "\x7b\"type\":\"history\",\"items\":" ++ 0x5B :: (joinItems _ ++ 0x5D :: [0x7D])
  rw [joinItems_eq]
  rfl

/-- The fields of the rows of a result, oldest first. -/
def historyFields (rows : List StateRow) : List SampleFields := (rows.map StateRow.fields).reverse

theorem historyJson_eq (rows : List StateRow) :
    historyJson rows = some ((historyDoc (historyFields rows)).paste []) := by
  have htexts : rows.mapM appendRowAsSampleJson = some (rows.map fun row => row.fields.text) := by
    rw [funext appendRowAsSampleJson_eq]
    exact List.mapM_pure
  rw [historyJson, htexts, Option.map_some, historyDoc_paste, historyFields]
  simp only [List.map_reverse, List.map_map, Function.comp_def]

/-- A history reply is read back exactly if every row of it is clean. -/
theorem history_roundTrips_iff (rows : List StateRow) :
    (∃ text v, historyJson rows = some text ∧ parse text = some v ∧
      HistoryReadsBack (historyFields rows) v) ↔ ∀ row ∈ rows, row.fields.Clean := by
  have hrows : (∀ row ∈ rows, row.fields.Clean) ↔ ∀ f ∈ historyFields rows, f.Clean := by
    simp only [historyFields, List.mem_reverse, List.forall_mem_map]
  rw [hrows, ← clean_historyDoc, ← parse_paste_iff (framed_historyDoc _), historyJson_eq]
  constructor
  · rintro ⟨text, v, htext, hparse, hback⟩
    cases htext
    exact ⟨v, hparse, givesBack_historyDoc.mpr hback⟩
  · rintro ⟨v, hparse, hback⟩
    exact ⟨_, v, rfl, hparse, givesBack_historyDoc.mp hback⟩

/-! ## The emitters -/

/-- What an emitter answers is a JSON object that gives the sample back. -/
def RoundTrips (f : SampleFields) (answer : Option Bytes) : Prop :=
  ∃ text ms, answer = some text ∧ parse text = some (.obj ms) ∧ f.ReadsBack (.obj ms)

theorem roundTrips_text_iff (f : SampleFields) : RoundTrips f (some f.text) ↔ f.Clean := by
  rw [← sample_roundTrips_iff]
  constructor
  · rintro ⟨text, ms, htext, hparse, hback⟩
    cases htext
    exact ⟨ms, hparse, hback⟩
  · rintro ⟨ms, hparse, hback⟩
    exact ⟨_, ms, rfl, hparse, hback⟩

/-- **When a text can be read back.** The broadcast of any state, the replay of any row, and a
history reply of any rows: each is a JSON document that gives the ids and the integers back
under their names, at every depth, exactly if what went into it is clean. Clean means that every
id is UTF-8 with no quotation mark, backslash or control character, and every number that is
printed with `%f` is finite; a history is read back only if all its rows are clean, since one
bad row makes the whole text unreadable. -/
theorem json_round_trip_iff (s : TelemetryState) (row : StateRow) (rows : List StateRow) :
    (RoundTrips s.fields (telemetryStateToJsonAlloc s) ↔ s.fields.Clean) ∧
    (RoundTrips row.fields (appendRowAsSampleJson row) ↔ row.fields.Clean) ∧
    ((∃ text v, historyJson rows = some text ∧ parse text = some v ∧
      HistoryReadsBack (historyFields rows) v) ↔ ∀ row ∈ rows, row.fields.Clean) := by
  refine ⟨?_, ?_, history_roundTrips_iff rows⟩
  · rw [telemetryStateToJsonAlloc_eq, roundTrips_text_iff]
  · rw [appendRowAsSampleJson_eq, roundTrips_text_iff]

/-- The state of a message with nothing in it but a robot id. -/
def named (robotId : Bytes) : TelemetryState :=
  telemetryStateOf { PbTelemetryState.empty with header := some ⟨some robotId, 0, 0⟩ } 0 none

/-- A quotation mark as robot id makes the text of the sample unreadable. -/
theorem quotationMark_not_roundTrips :
    ¬ RoundTrips (named [0x22]).fields (telemetryStateToJsonAlloc (named [0x22])) := by
  rw [telemetryStateToJsonAlloc_eq, roundTrips_text_iff]
  rintro ⟨⟨⟨hplain, -⟩, -⟩, -⟩
  revert hplain
  decide

end TelemetryTestbed.Telemetry
