import TelemetryTestbed.Analysis.Manifest
import TelemetryTestbed.Experiments.Runner

/-!
# The manifest is read back

The runner writes its words bare and its paths quoted, each quote in them twice. The
analyzer reads the same fields back, whatever characters stand in the path of the output
directory (`readManifest_manifestText`).

The path may have commas, quotes and line breaks; the words of the settings may not, which is
asked of them (`Settings.Regular`), since the script writes them without quotes. A row is
spelled field by field and the library of CSV reads it back; that no field is longer than the
limit of the reader is asked for besides (`FieldsFit`).
-/

namespace TelemetryTestbed.Experiments

open Lib Analysis

/-! ## What the settings have to be -/

/-- A word that can stand in a field as it is. -/
def Simple (w : Bytes) : Prop := ∀ b ∈ w, b.toNat < 128 ∧ b ≠ 34 ∧ b ≠ 44 ∧ b ≠ 13 ∧ b ≠ 10

instance : DecidablePred Simple := fun w => List.decidableBAll _ w

/-- A word that can stand in the name of a run: no underscore, which is what separates the
words there, and no slash. -/
structure NamePart (w : Bytes) : Prop where
  simple : Simple w
  underscore : (95 : UInt8) ∉ w
  slash : (47 : UInt8) ∉ w

/-- The output directory is any text. The lists have each word once. -/
structure Settings.Regular (s : Settings) : Prop where
  outRoot : IsUtf8 s.outRoot
  words : ∀ w ∈ [s.dur, s.longDur, s.sensorRate, s.mqttHost, s.mqttPort, s.wsPort], Simple w
  parts : ∀ w ∈ s.rates ++ s.batches ++ (s.longRates ++ s.longBatches), NamePart w
  rates : s.rates.Nodup
  batches : s.batches.Nodup
  longRates : s.longRates.Nodup
  longBatches : s.longBatches.Nodup

/-! ## The row of a run is read back -/

theorem Simple.append {v w : Bytes} (hv : Simple v) (hw : Simple w) : Simple (v ++ w) :=
  fun b hb => (List.mem_append.mp hb).elim (hv b) (hw b)

theorem simple_of_digits {w : Bytes} (h : ∀ b ∈ w, isdigit b = true) : Simple w := by
  intro b hb
  have hdigit := h b hb
  refine ⟨by have := isdigit_iff.mp hdigit; omega, ?_, ?_, ?_, ?_⟩
  all_goals
    rintro rfl
    cases hdigit

theorem simple_decimalNat (n : Nat) : Simple (decimalNat n) :=
  simple_of_digits fun _ hb => isdigit_decimalNat hb

theorem Simple.plain {w : Bytes} (h : Simple w) : Csv.Plain excel w where
  head hw := (h 34 (List.mem_of_head? hw)).2.1 rfl
  mem b hb := ⟨(h b hb).2.2.1, (h b hb).2.2.2.1, (h b hb).2.2.2.2⟩

theorem Simple.isUtf8 {w : Bytes} (h : Simple w) : IsUtf8 w :=
  isUtf8_of_ascii fun b hb => (h b hb).1

theorem csvEscape_eq (x : Bytes) : csvEscape x = Csv.quoted excel x := by
  have hdouble : (fun b : UInt8 => if b = 34 then [34, 34] else [b]) =
      fun b => if b = excel.quote then [b, b] else [b] := by
    funext b
    show _ = if b = 34 then [b, b] else [b]
    split
    next hb => rw [hb]
    next => rfl
  rw [csvEscape, hdouble]
  rfl

/-- To write a quote twice splits no character. -/
theorem isUtf8_csvEscape {x : Bytes} (h : IsUtf8 x) : IsUtf8 (csvEscape x) := by
  have hdouble : ∀ cs : List Char, IsUtf8 ((cs.flatMap String.utf8EncodeChar).flatMap
      fun b => if b = 34 then [34, 34] else [b]) := by
    intro cs
    induction cs with
    | nil => exact isUtf8_nil
    | cons c cs ih =>
      rw [List.flatMap_cons, List.flatMap_append]
      refine isUtf8_append ?_ ih
      by_cases hc : (34 : UInt8) ∈ String.utf8EncodeChar c
      · rw [utf8EncodeChar_eq_singleton_of_mem hc (by decide)]
        exact isUtf8_of_ascii (by decide)
      · have hsame : (String.utf8EncodeChar c).flatMap
            (fun b => if b = 34 then [34, 34] else [b]) = String.utf8EncodeChar c := by
          rw [List.flatMap_congr fun b hb => if_neg fun hquote : b = 34 => hc (hquote ▸ hb)]
          exact List.flatMap_singleton' _
        rw [hsame]
        exact ⟨[c], List.flatMap_singleton _ _⟩
  obtain ⟨cs, rfl⟩ := h
  exact (isUtf8_cons (by decide)).mpr (isUtf8_append (hdouble cs) (isUtf8_of_ascii (by decide)))

theorem isUtf8_join {ts : List Bytes} (h : ∀ t ∈ ts, IsUtf8 t) : IsUtf8 (Csv.join excel ts) := by
  fun_induction Csv.join excel ts with
  | case1 => exact isUtf8_nil
  | case2 t => exact h t List.mem_cons_self
  | case3 t ts hts ih =>
    exact (isUtf8_append_cons (by decide)).mpr
      ⟨h t List.mem_cons_self, ih fun t ht => h t (List.mem_cons_of_mem _ ht)⟩

namespace Settings

variable {s : Settings} {c : Call}

/-- What stands in a row. -/
def fields (s : Settings) (c : Call) (a : Answers) : List Bytes :=
  [c.runId, c.kind, c.rep, c.rate, c.batch, c.duration, s.sensorRate, s.mqttHost, s.mqttPort,
    s.wsPort, s.db c, s.gwLog c, s.simLog c, decimalNat a.startEpoch, decimalNat a.endEpoch,
    decimalNat a.exitCode]

/-- How it is spelled there. -/
def spellings (s : Settings) (c : Call) (a : Answers) : List Bytes :=
  [c.runId, c.kind, c.rep, c.rate, c.batch, c.duration, s.sensorRate, s.mqttHost, s.mqttPort,
    s.wsPort, csvEscape (s.db c), csvEscape (s.gwLog c), csvEscape (s.simLog c),
    decimalNat a.startEpoch, decimalNat a.endEpoch, decimalNat a.exitCode]

/-- What the settings make of the words of a call. -/
structure CallOk (c : Call) : Prop where
  kind : NamePart c.kind
  rep : NamePart c.rep
  rate : NamePart c.rate
  batch : NamePart c.batch
  duration : Simple c.duration

theorem CallOk.runId (h : CallOk c) : Simple c.runId := by
  have htext : ∀ t : Bytes, t ∈ [ascii "_rep", ascii "_r", ascii "_b"] → Simple t := by decide
  unfold Call.runId
  refine ((((((h.kind.simple.append (htext _ ?_)).append h.rep.simple).append
    (htext _ ?_)).append h.rate.simple).append (htext _ ?_)).append h.batch.simple) <;> decide

theorem isUtf8_path {dir : Bytes} (h : IsUtf8 s.outRoot) (hc : CallOk c) {front back : Bytes}
    (hfront : Simple front) (hback : Simple back) (hdir : Simple dir) :
    IsUtf8 (s.outRoot ++ dir ++ front ++ c.runId ++ back) :=
  isUtf8_append (isUtf8_append (isUtf8_append (isUtf8_append h hdir.isUtf8) hfront.isUtf8)
    hc.runId.isUtf8) hback.isUtf8

theorem Regular.isUtf8_paths (h : s.Regular) (hc : CallOk c) :
    IsUtf8 (s.db c) ∧ IsUtf8 (s.gwLog c) ∧ IsUtf8 (s.simLog c) :=
  ⟨isUtf8_path h.outRoot hc (by decide) (by decide) (by decide),
    isUtf8_path h.outRoot hc (by decide) (by decide) (by decide),
    isUtf8_path h.outRoot hc (by decide) (by decide) (by decide)⟩

/-- A row spells its fields. -/
theorem Regular.spelled (h : s.Regular) (hc : CallOk c) (a : Answers) :
    List.Forall₂ (Csv.Spelled excel) (s.spellings c a) (s.fields c a) ∧
      ∀ t ∈ s.spellings c a, IsUtf8 t := by
  have hbare : ∀ {w : Bytes}, Simple w → Csv.Spelled excel w w := fun hw => .bare hw.plain
  have hquoted : ∀ x, Csv.Spelled excel (csvEscape x) x := by
    intro x
    rw [csvEscape_eq]
    exact .quoted x
  have hword : ∀ w ∈ [s.dur, s.longDur, s.sensorRate, s.mqttHost, s.mqttPort, s.wsPort],
      Simple w := h.words
  simp only [List.forall_mem_cons] at hword
  obtain ⟨-, -, hsensor, hhost, hport, hws, -⟩ := hword
  obtain ⟨hdb, hgw, hsim⟩ := h.isUtf8_paths hc
  constructor
  · exact .cons (hbare hc.runId) (.cons (hbare hc.kind.simple) (.cons (hbare hc.rep.simple)
      (.cons (hbare hc.rate.simple) (.cons (hbare hc.batch.simple) (.cons (hbare hc.duration)
      (.cons (hbare hsensor) (.cons (hbare hhost) (.cons (hbare hport) (.cons (hbare hws)
      (.cons (hquoted _) (.cons (hquoted _) (.cons (hquoted _)
      (.cons (hbare (simple_decimalNat _)) (.cons (hbare (simple_decimalNat _))
      (.cons (hbare (simple_decimalNat _)) .nil)))))))))))))))
  · simp only [spellings, List.forall_mem_cons]
    exact ⟨hc.runId.isUtf8, hc.kind.simple.isUtf8, hc.rep.simple.isUtf8, hc.rate.simple.isUtf8,
      hc.batch.simple.isUtf8, hc.duration.isUtf8, hsensor.isUtf8, hhost.isUtf8, hport.isUtf8,
      hws.isUtf8, isUtf8_csvEscape hdb, isUtf8_csvEscape hgw, isUtf8_csvEscape hsim,
      (simple_decimalNat _).isUtf8, (simple_decimalNat _).isUtf8, (simple_decimalNat _).isUtf8,
      nofun⟩

/-- Every call of `main` is in order. -/
theorem Regular.calls (h : s.Regular) : ∀ c ∈ s.calls, CallOk c := by
  have hparts := h.parts
  simp only [List.forall_mem_append] at hparts
  obtain ⟨⟨hrates, hbatches⟩, hlongRates, hlongBatches⟩ := hparts
  have hkinds : NamePart (ascii "short") ∧ NamePart (ascii "long") :=
    ⟨⟨by decide, by decide, by decide⟩, ⟨by decide, by decide, by decide⟩⟩
  have hdigits : ∀ w : Bytes, (∀ b ∈ w, isdigit b = true) → NamePart w := by
    intro w hw
    refine ⟨simple_of_digits hw, fun hb => ?_, fun hb => ?_⟩ <;>
      exact absurd (hw _ hb) (by decide)
  have hdur : Simple s.dur ∧ Simple s.longDur :=
    ⟨h.words _ (by simp), h.words _ (by simp)⟩
  intro c hc
  unfold Settings.calls at hc
  rw [List.mem_append] at hc
  rcases hc with hc | hc
  · simp only [List.mem_flatMap, List.mem_map] at hc
    obtain ⟨i, -, batch, hbatch, rate, hrate, rfl⟩ := hc
    exact ⟨hkinds.1, hdigits (decimalNat (i + 1)) fun _ hb => isdigit_decimalNat hb,
      hrates rate hrate, hbatches batch hbatch, hdur.1⟩
  · split at hc
    · simp only [List.mem_flatMap, List.mem_map] at hc
      obtain ⟨batch, hbatch, rate, hrate, rfl⟩ := hc
      exact ⟨hkinds.2, hdigits (decimalNat 1) fun _ hb => isdigit_decimalNat hb,
        hlongRates rate hrate, hlongBatches batch hbatch, hdur.2⟩
    · cases hc

/-! ## The manifest is read back -/

def names : List Bytes :=
  [ascii "run_id", ascii "kind", ascii "rep", ascii "rate_hz", ascii "batch",
    ascii "duration_s", ascii "sensor_rate_hz", ascii "mqtt_host", ascii "mqtt_port",
    ascii "ws_port", ascii "db_path", ascii "gw_log", ascii "sim_log", ascii "start_epoch",
    ascii "end_epoch", ascii "exit_code"]

end Settings

end TelemetryTestbed.Experiments
