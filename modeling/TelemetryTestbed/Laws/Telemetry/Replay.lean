import TelemetryTestbed.Laws.Telemetry.Sample

/-!
# Live and replay

The broadcast prints `seq`, `tilt_status` and `msg_timestamp_ns` as the unsigned
numbers they are. The insert binds the first two as `int` and the third as a signed
64-bit integer, and the replay prints them signed. Every other field comes back as
it was, so the texts are the same exactly if the three fields are small enough
(`replay_eq_live_iff`).

The proof compares the fields of the two documents first, then their texts: a numeral ends at
a separator, so two texts of the same frame are equal only if each pair of numerals is. Equal
numerals are equal numbers, and an unsigned number is its signed reading exactly below half of
the range.
-/

namespace TelemetryTestbed.Telemetry

open TelemetryTestbed.Lib Lib.Json Persistence

/-! ## Two texts of one frame -/

/-- A numeral ends where a separator stands. -/
theorem decimal_append_inj {m n : Int} {r r' : Bytes} (hr : Delimited r) (hr' : Delimited r')
    (h : decimal m ++ r = decimal n ++ r') : m = n ∧ r = r' := by
  have hbytes : ∀ k : Int, ∀ b ∈ decimal k, (b = 45 || isdigit b) = true := fun k b hb => by
    rcases mem_decimal hb with rfl | hb
    · rfl
    · rw [hb, Bool.or_true]
  have hstop : ∀ {r : Bytes}, Delimited r → r.takeWhile (fun b => b = 45 || isdigit b) = [] := by
    intro r hr
    cases r with
    | nil => rfl
    | cons b r =>
      apply List.takeWhile_cons_of_neg
      rcases hr b rfl with rfl | rfl | rfl <;> decide
  have htake := congrArg (List.takeWhile fun b => b = 45 || isdigit b) h
  rw [List.takeWhile_append_of_pos (hbytes m), List.takeWhile_append_of_pos (hbytes n), hstop hr,
    hstop hr', List.append_nil, List.append_nil] at htake
  have hmn := decimal_injective htake
  rw [hmn] at h
  exact ⟨hmn, List.append_cancel_left h⟩

/-- The fields with other values of the three that are narrowed. -/
def SampleFields.withInts (f : SampleFields) (seq msgTsNs tiltStatus : Int) : SampleFields :=
  { f with seq, msgTsNs, tiltStatus }

theorem withInts_text_inj {f : SampleFields} {a b c a' b' c' : Int}
    (h : (f.withInts a b c).text = (f.withInts a' b' c').text) : a = a' ∧ b = b' ∧ c = c' := by
  simp only [SampleFields.text, SampleFields.doc, SampleFields.members, SampleFields.withInts, Doc.paste,
    Doc.pasteMembers, List.cons.injEq, true_and, List.append_cancel_left_eq] at h
  obtain ⟨rfl, h⟩ := decimal_append_inj (delimited_cons (Or.inl rfl)) (delimited_cons (Or.inl rfl)) h
  simp only [List.cons.injEq, true_and, List.append_cancel_left_eq] at h
  obtain ⟨rfl, h⟩ := decimal_append_inj (delimited_cons (Or.inl rfl)) (delimited_cons (Or.inl rfl)) h
  simp only [List.cons.injEq, true_and, List.append_cancel_left_eq] at h
  obtain ⟨rfl, h⟩ := decimal_append_inj (delimited_cons (Or.inl rfl)) (delimited_cons (Or.inl rfl)) h
  exact ⟨rfl, rfl, rfl⟩

/-! ## What comes back -/

def Vec3.Finite (v : Vec3) : Prop :=
  v.x.toDouble.IsFinite ∧ v.y.toDouble.IsFinite ∧ v.z.toDouble.IsFinite

/-- Every `float` of the state is finite. -/
def TelemetryState.FiniteFloats (s : TelemetryState) : Prop :=
  s.accG.Finite ∧ s.gyroDps.Finite ∧ s.tiltDeg.Finite

theorem columnDouble_bindDouble {x : Double} (h : x.IsFinite) :
    columnDouble (bindDouble x) = x := by
  cases x with
  | nan neg => exact h.elim
  | inf neg => exact h.elim
  | fin neg mant exp => rfl

section

variable (row : StateRow) (i : Nat)

theorem int_of_bindInt {n : Int32} (h : row.column i = bindInt n) : row.int i = n.toInt := by
  have hn : columnInt (bindInt n) = n := Int32.toInt32_toInt64 n
  rw [StateRow.int, h, hn]

theorem text_of_bindText {b : Bytes} (hb : (0 : UInt8) ∉ b) (h : row.column i = bindText b) :
    row.text i = b := by
  rw [StateRow.text, h, bindText, columnText, Option.getD_some, cstr_eq_self hb,
    cstr_eq_self hb]

/-- A counter of 32 bits is bound in 64. -/
theorem int64_of_tics {n : UInt32} (h : row.column i = bindInt64 n.toUInt64.toInt64) :
    row.int64 i = n.toNat := by
  have hlt := n.toNat_lt
  rw [StateRow.int64, h]
  show (n.toUInt64.toInt64).toBitVec.toInt = n.toNat
  have hbits : n.toUInt64.toInt64.toBitVec.toNat = n.toNat := UInt32.toNat_toUInt64 n
  rw [BitVec.toInt_eq_toNat_of_lt (by rw [hbits]; omega), hbits]

theorem triple_of_bindDouble {v : Vec3} (hv : v.Finite)
    (hx : row.column i = bindDouble v.x.toDouble)
    (hy : row.column (i + 1) = bindDouble v.y.toDouble)
    (hz : row.column (i + 2) = bindDouble v.z.toDouble) : row.triple i = v.triple := by
  obtain ⟨fx, fy, fz⟩ := hv
  rw [StateRow.triple, hx, hy, hz, columnDouble_bindDouble fx, columnDouble_bindDouble fy,
    columnDouble_bindDouble fz, Vec3.triple]

theorem motor_of_bind {m : MotorFields} (hid : row.column i = bindText m.id.bytes)
    (htics : row.column (i + 1) = bindInt64 m.tics.toUInt64.toInt64)
    (hrpm : row.column (i + 2) = bindInt m.rpm)
    (htemp : row.column (i + 3) = bindInt m.temperatureC)
    (hvps : row.column (i + 4) = bindInt m.voltagePowerStageMv)
    (hcps : row.column (i + 5) = bindInt m.currentPowerStageMa) : row.motor i = m.sample := by
  rw [StateRow.motor, text_of_bindText row i m.id.noNul hid, int64_of_tics row (i + 1) htics,
    int_of_bindInt row (i + 2) hrpm, int_of_bindInt row (i + 3) htemp,
    int_of_bindInt row (i + 4) hvps, int_of_bindInt row (i + 5) hcps, MotorFields.sample]

end

/-- The fields of the row of a state: the narrowed ones, and the others as they were. -/
theorem fields_insertState {s : TelemetryState} (h : s.FiniteFloats) :
    (insertState s).fields = s.fields.withInts s.seq.toInt32.toInt
      s.msgTimestampNs.toInt64.toInt s.tiltStatus.toInt32.toInt := by
  obtain ⟨hacc, hgyro, htilt⟩ := h
  have hmotors : (insertState s).hasMotors = true := rfl
  rw [StateRow.fields, hmotors, if_pos rfl,
    int_of_bindInt (insertState s) 2 rfl,
    int_of_bindInt (insertState s) 15 rfl,
    text_of_bindText (insertState s) 1 s.robotId.noNul rfl,
    text_of_bindText (insertState s) 4 s.imuId.noNul rfl,
    text_of_bindText (insertState s) 11 s.tiltId.noNul rfl,
    triple_of_bindDouble (insertState s) 5 hacc rfl rfl rfl,
    triple_of_bindDouble (insertState s) 8 hgyro rfl rfl rfl,
    triple_of_bindDouble (insertState s) 12 htilt rfl rfl rfl,
    motor_of_bind (insertState s) 16 rfl rfl rfl rfl rfl rfl,
    motor_of_bind (insertState s) 22 rfl rfl rfl rfl rfl rfl]
  rfl

/-! ## The law -/

/-- A signed reading of `w` bits keeps the value exactly below `2 ^ (w - 1)`. -/
theorem toInt_eq_toNat_iff {w : Nat} (x : BitVec (w + 1)) :
    x.toInt = x.toNat ↔ x.toNat < 2 ^ w := by
  rw [BitVec.toInt_eq_toNat_cond, Nat.pow_succ]
  have hlt := x.isLt
  rw [Nat.pow_succ] at hlt
  split
  next h => exact ⟨fun _ => by omega, fun _ => rfl⟩
  next h =>
    constructor
    · intro e
      have : (0 : Int) < ((2 ^ w * 2 : Nat) : Int) := by exact_mod_cast Nat.lt_of_le_of_lt (Nat.zero_le _) hlt
      omega
    · intro e
      omega

/-- The texts are the same exactly if the narrowed fields are printed the same. -/
theorem replay_eq_live_iff_toInt {s : TelemetryState} (h : s.FiniteFloats) :
    appendRowAsSampleJson (insertState s) = telemetryStateToJsonAlloc s ↔
      s.seq.toInt32.toInt = s.seq.toNat ∧
        s.msgTimestampNs.toInt64.toInt = s.msgTimestampNs.toNat ∧
        s.tiltStatus.toInt32.toInt = s.tiltStatus.toNat := by
  have hlive : s.fields = s.fields.withInts s.seq.toNat s.msgTimestampNs.toNat
      s.tiltStatus.toNat := rfl
  rw [appendRowAsSampleJson_eq, telemetryStateToJsonAlloc_eq, fields_insertState h,
    Option.some_inj]
  constructor
  · intro htext
    rw [hlive] at htext
    exact withInts_text_inj htext
  · rintro ⟨hseq, hmsg, hstatus⟩
    rw [hseq, hmsg, hstatus, ← hlive]

/-- **Replay is broadcast, byte for byte,** for a state whose floats are finite, exactly if
the three narrowed fields fit the signed types they are bound as. That a `REAL` column gives
back the double that was bound to it is an assumption of the table model, and it covers
negative zero, which a real SQLite stores as 0.0. -/
theorem replay_eq_live_iff (s : TelemetryState) (h : s.FiniteFloats) :
    appendRowAsSampleJson (insertState s) = telemetryStateToJsonAlloc s ↔
      s.seq.toNat < 2 ^ 31 ∧ s.msgTimestampNs.toNat < 2 ^ 63 ∧ s.tiltStatus.toNat < 2 ^ 31 :=
  (replay_eq_live_iff_toInt h).trans (and_congr (toInt_eq_toNat_iff s.seq.toBitVec)
    (and_congr (toInt_eq_toNat_iff s.msgTimestampNs.toBitVec)
      (toInt_eq_toNat_iff s.tiltStatus.toBitVec)))

/-- The state of a message with nothing in it but a sequence number. -/
def numbered (seq : UInt32) : TelemetryState :=
  telemetryStateOf { PbTelemetryState.empty with header := some ⟨none, 0, seq⟩ } 0 none

theorem numbered_finiteFloats (seq : UInt32) : (numbered seq).FiniteFloats :=
  have hzero : Vec3.zero.Finite := ⟨True.intro, True.intro, True.intro⟩
  ⟨hzero, hzero, hzero⟩

theorem replay_eq_live_seven :
    appendRowAsSampleJson (insertState (numbered 7)) = telemetryStateToJsonAlloc (numbered 7) :=
  (replay_eq_live_iff (numbered 7) (numbered_finiteFloats 7)).mpr (by decide)

/-- From `2 ^ 31` on the replay prints the sequence number as a negative one. -/
theorem replay_ne_live_high_seq : (numbered 0x80000000).FiniteFloats ∧
    appendRowAsSampleJson (insertState (numbered 0x80000000)) ≠
      telemetryStateToJsonAlloc (numbered 0x80000000) := by
  refine ⟨numbered_finiteFloats _, fun h => ?_⟩
  have hseq := ((replay_eq_live_iff_toInt (numbered_finiteFloats _)).mp h).1
  revert hseq
  decide

end TelemetryTestbed.Telemetry
