import TelemetryTestbed.Analysis.GwStat
import TelemetryTestbed.Laws.Gateway.StatsLine

/-!
# Both decoders read what the gateway prints

A line of statistics is a list of words with one space between them (`spaced`), and its
numbers are numerals without a sign (`IsNumeral`). The expression takes them in by
position, the tokens by their key: both give every field the decimal that was printed.

The text of a line is followed once by the matcher and once by the splitting, field by field,
with the rest of the line behind. That the numbers have no sign, and digits on both sides of
the point, comes from the order of the snapshots: no counter and no clock has gone back.
-/

namespace TelemetryTestbed.Analysis

open Lib Lib.Regex Gateway

/-! ## The expression, piece by piece -/

section Pieces

variable {α : Type} {prev : Option UInt8} {rest v s name : Bytes} {caps : Captures} {x : α}
  {k : Cursor → Captures → Option α} {p : UInt8 → Bool} {rs : List Regex}

/-- A repetition cannot go on here. -/
def Stops (p : UInt8 → Bool) (rest : Bytes) : Prop := rest.head?.all (fun b => !p b) = true

theorem Stops.head (h : Stops p rest) : ∀ b, rest.head? = some b → p b = false := by
  intro b hb
  rw [Stops, hb, Option.all_some, Bool.not_eq_true'] at h
  exact h

theorem run_seq (r : Regex) (rs : List Regex) (c : Cursor) :
    (seq (r :: rs)).run c caps k = r.run c caps fun c caps => (seq rs).run c caps k := rfl

theorem run_seq_nil (c : Cursor) : (seq []).run c caps k = k c caps := rfl

theorem run_exact (s : Bytes) (hk : ∀ prev, (seq rs).run ⟨prev, rest⟩ caps k = some x) :
    (seq (exact s :: rs)).run ⟨prev, s ++ rest⟩ caps k = some x := by
  rw [run_seq, exact, run_lit fun b => decide_eq_true rfl]
  exact hk _

theorem run_capture (hv : v ≠ []) (hall : ∀ b ∈ v, p b = true) (hstop : Stops p rest)
    (hk : ∀ prev, (seq rs).run ⟨prev, rest⟩ ((name, v) :: caps) k = some x) :
    (seq (.group name (.many p) :: rs)).run ⟨prev, v ++ rest⟩ caps k = some x := by
  rw [run_seq]
  exact run_group_many hv hall hstop.head (hk _)

theorem run_spaces (hstop : Stops isPySpace rest)
    (hk : ∀ prev, (seq rs).run ⟨prev, rest⟩ caps k = some x) :
    (seq (spaces :: rs)).run ⟨prev, 32 :: rest⟩ caps k = some x := by
  have hall : ∀ b ∈ [(32 : UInt8)], isPySpace b = true := List.all_eq_true.mp rfl
  rw [run_seq, ← List.singleton_append]
  exact run_many (List.cons_ne_nil 32 []) hall hstop.head (hk _)

theorem run_optional_none {r : Regex} {c : Cursor} (h : r.run c caps k = none) :
    r.optional.run c caps k = k c caps := by
  rw [Regex.optional, run_alt_of_none h, run_eps]

theorem run_optional_some {r : Regex} {c : Cursor} (h : r.run c caps k = some x) :
    r.optional.run c caps k = some x := run_alt_of_some h

end Pieces

/-! ## Numerals with a unit -/

/-- The groups of a numeral and of its unit. -/
def unitCaptures (v unit : Bytes) : Captures :=
  if unit = [] then [([49], v)] else [([50], unit), ([49], v)]

/-- A numeral both decoders take for the number `q`: `float` reads it alone, and the expression
with units finds it in front of any unit. -/
structure IsNumeral (v : Bytes) (q : ℚ) : Prop where
  ne_nil : v ≠ []
  isDecimalByte : ∀ b ∈ v, isDecimalByte b = true
  value : pyFloat v = some q
  matchUnit : ∀ unit : Bytes, (∀ b ∈ unit, isUnitByte b = true) →
    numUnitRe.matchStart (v ++ unit) = some (unitCaptures v unit)

variable {v w f unit key : Bytes} {q : ℚ}

theorem isDecimalByte_of_isUnitByte {b : UInt8} (h : isUnitByte b = true) :
    isDecimalByte b = false := by
  simp only [isUnitByte, isDecimalByte, isdigit, Bool.or_eq_true, Bool.and_eq_true,
    decide_eq_true_eq, Bool.or_eq_false_iff, Bool.and_eq_false_iff, decide_eq_false_iff_not,
    UInt8.le_iff_toNat_le, ← UInt8.toNat_inj, UInt8.toNat_ofNat] at h ⊢
  omega

/-- No digit and no dot stands at the front of a unit. -/
theorem stops_unit (hunit : ∀ b ∈ unit, isUnitByte b = true) : Stops isDecimalByte unit := by
  cases unit with
  | nil => rfl
  | cons b unit =>
    rw [Stops, List.head?_cons, Option.all_some,
      isDecimalByte_of_isUnitByte (hunit b List.mem_cons_self)]
    rfl

theorem Stops.parts {rest : Bytes} (h : Stops isDecimalByte rest) :
    Stops isdigit rest ∧ ∀ b, rest.head? = some b → decide (b = 46) = false := by
  have hparts : ∀ b, rest.head? = some b → isdigit b = false ∧ decide (b = 46) = false := by
    intro b hb
    have hdecimal := h.head b hb
    rw [isDecimalByte, Bool.or_eq_false_iff] at hdecimal
    exact hdecimal
  refine ⟨?_, fun b hb => (hparts b hb).2⟩
  cases rest with
  | nil => rfl
  | cons b rest =>
    rw [Stops, List.head?_cons, Option.all_some, (hparts b rfl).1]
    rfl

/-- Behind the numeral stands its unit, and nothing else. -/
theorem run_unit {prev : Option UInt8} (hunit : ∀ b ∈ unit, isUnitByte b = true) :
    (seq [.optional (.group [50] (.many isUnitByte)), .stop]).run ⟨prev, unit⟩ [([49], v)]
      (fun _ caps => some caps) = some (unitCaptures v unit) := by
  have hend : ∀ b, ([] : Bytes).head? = some b → isUnitByte b = false := fun b hb => by cases hb
  by_cases hne : unit = []
  · subst hne
    rw [run_seq, run_optional_none (run_group_neg fun k => run_many_neg hend)]
    rfl
  · have hgroup := @run_group_many Captures isUnitByte prev [] [([49], v)]
      (fun c caps => (seq [.stop]).run c caps fun _ caps => some caps) _ [50] unit hne hunit hend rfl
    rw [List.append_nil] at hgroup
    rw [run_seq, run_optional_some hgroup, unitCaptures, if_neg hne]

/-- The front of `numUnitRe`: digits that no sign precedes, and the decimals behind them. -/
theorem matchStart_of_run {rest : Bytes} (hne : w ≠ []) (hw : ∀ b ∈ w, isdigit b = true)
    (hrest : Stops isdigit rest) {found : Captures}
    (hk : ∀ prev, (Regex.optional (seq [.byte fun b => b = 46, .many isdigit])).run ⟨prev, rest⟩ []
      (fun c caps => (seq [.optional (.group [50] (.many isUnitByte)), .stop]).run c
        (([49], (w ++ rest).take ((w ++ rest).length - c.rest.length)) :: caps)
        fun _ caps => some caps) = some found) :
    numUnitRe.matchStart (w ++ rest) = some found := by
  have hsign : ∀ b, (w ++ rest).head? = some b → (decide (b = 43) || decide (b = 45)) = false := by
    obtain ⟨c, w, rfl⟩ := List.exists_cons_of_ne_nil hne
    rintro b hb
    obtain rfl := Option.some.inj hb
    have hdigit := hw c List.mem_cons_self
    rw [Bool.or_eq_false_iff, decide_eq_false_iff_not, decide_eq_false_iff_not]
    constructor
    · rintro rfl
      cases hdigit
    · rintro rfl
      cases hdigit
  rw [matchStart, numUnitRe, run_seq, run_start, run_seq, run_group, run_seq,
    run_optional_none (run_byte_neg hsign), run_seq]
  exact run_many hne hw hrest.head (hk _)

theorem isNumeral_decimalNat (n : Nat) : IsNumeral (decimalNat n) n where
  ne_nil := decimalNat_ne_nil n
  isDecimalByte := by
    intro b hb
    rw [isDecimalByte, isdigit_decimalNat hb]
    rfl
  value := pyFloat_decimalNat n
  matchUnit := by
    intro unit hunit
    obtain ⟨hstop, hdot⟩ := (stops_unit hunit).parts
    apply matchStart_of_run (decimalNat_ne_nil n) (fun b hb => isdigit_decimalNat hb) hstop
    intro prev
    rw [run_optional_none (by rw [run_seq, run_byte_neg hdot])]
    dsimp only
    rw [List.length_append, Nat.add_sub_cancel, List.take_left]
    exact run_unit hunit

theorem isNumeral_fixedPoint {k : Nat} (hk : 0 < k) (n : Nat) :
    IsNumeral (Double.fixedPoint k n) (n / 10 ^ k) where
  ne_nil := List.append_ne_nil_of_left_ne_nil (decimalNat_ne_nil _) _
  isDecimalByte := by
    intro b hb
    rw [Double.fixedPoint, List.mem_append, List.mem_cons] at hb
    obtain hb | rfl | hb := hb
    · rw [isDecimalByte, isdigit_decimalNat hb]
      rfl
    · rfl
    · rw [isDecimalByte, isdigit_fixedDigits hb]
      rfl
  value := pyFloat_fixedPoint k n
  matchUnit := by
    intro unit hunit
    have hfrac : fixedDigits k (n % 10 ^ k) ≠ [] := by
      intro h
      have hlength := length_fixedDigits k (n % 10 ^ k)
      rw [h] at hlength
      exact hk.ne hlength
    have hstop : Stops isdigit (46 :: fixedDigits k (n % 10 ^ k) ++ unit) := rfl
    rw [Double.fixedPoint, List.append_assoc]
    apply matchStart_of_run (decimalNat_ne_nil _) (fun b hb => isdigit_decimalNat hb) hstop
    intro prev
    apply run_optional_some
    rw [run_seq, List.cons_append, run_byte_pos rfl, run_seq]
    apply run_many hfrac (fun b hb => isdigit_fixedDigits hb) (stops_unit hunit).parts.1.head
    rw [run_seq_nil, ← List.cons_append, ← List.append_assoc, List.length_append,
      Nat.add_sub_cancel, List.take_left]
    exact run_unit hunit

/-- No byte of a numeral or of a unit is a space, a comma or an equals sign. -/
theorem isPySpace_of_isDecimalByte {b : UInt8} (h : isDecimalByte b = true ∨ isUnitByte b = true) :
    isPySpace b = false ∧ b ≠ 44 ∧ b ≠ 61 := by
  simp only [isUnitByte, isDecimalByte, isdigit, isPySpace, isspace, Bool.or_eq_true,
    Bool.and_eq_true, decide_eq_true_eq, Bool.or_eq_false_iff, Bool.and_eq_false_iff,
    decide_eq_false_iff_not, UInt8.le_iff_toNat_le, ← UInt8.toNat_inj, UInt8.toNat_ofNat, ne_eq]
    at h ⊢
  omega

theorem IsNumeral.token (h : IsNumeral v q) (hunit : ∀ b ∈ unit, isUnitByte b = true) :
    ∀ b ∈ v ++ unit, isPySpace b = false ∧ b ≠ 44 ∧ b ≠ 61 := by
  intro b hb
  apply isPySpace_of_isDecimalByte
  exact (List.mem_append.mp hb).imp (h.isDecimalByte b) (hunit b)

/-- The groups and the unit are put together again. -/
theorem IsNumeral.parseNumWithUnit (h : IsNumeral v q) (hunit : ∀ b ∈ unit, isUnitByte b = true) :
    parseNumWithUnit (v ++ unit) = some (normalizeUnit unit q) := by
  have hspace : ∀ b ∈ v ++ unit, isPySpace b = false := fun b hb => (h.token hunit b hb).1
  have hstrip : strip isPySpace unit = unit :=
    strip_eq_self fun b hb => hspace b (List.mem_append_right v hb)
  rw [Analysis.parseNumWithUnit, strip_eq_self hspace, h.matchUnit unit hunit, Option.bind_some,
    unitCaptures]
  split
  next hne =>
    subst hne
    rw [show Captures.get? [([49], v)] [49] = some v from rfl, Option.bind_some, h.value]
    rfl
  next hne =>
    rw [show Captures.get? [([50], unit), ([49], v)] [49] = some v from rfl, Option.bind_some,
      h.value, show Captures.get? [([50], unit), ([49], v)] [50] = some unit from rfl,
      Option.map_some, Option.getD_some, hstrip]

theorem IsNumeral.parseToken {keyEq : Bytes} (h : IsNumeral v q)
    (hunit : unit.all isUnitByte = true) (hkeyEq : keyEq = key ++ [61])
    (hplain : key.all (fun b => !isPySpace b && b != 61) = true) :
    parseToken (keyEq ++ (v ++ unit)) = some (key, normalizeUnit unit q) := by
  have hkey : ∀ b ∈ key, isPySpace b = false ∧ b ≠ 61 := by
    intro b hb
    have hboth := List.all_eq_true.mp hplain b hb
    rwa [Bool.and_eq_true, Bool.not_eq_true', bne_iff_ne] at hboth
  have htoken := h.token (List.all_eq_true.mp hunit)
  have hmem : (61 : UInt8) ∈ key ++ 61 :: (v ++ unit) :=
    List.mem_append_right key List.mem_cons_self
  have hne : ∀ b ∈ key, decide (b ≠ 61) = true := fun b hb => decide_eq_true (hkey b hb).2
  have htake : (key ++ 61 :: (v ++ unit)).takeWhile (fun b => b ≠ 61) = key := by
    rw [List.takeWhile_append_of_pos hne, List.takeWhile_cons_of_neg (by decide), List.append_nil]
  have hdrop : (key ++ 61 :: (v ++ unit)).dropWhile (fun b => b ≠ 61) = 61 :: (v ++ unit) := by
    rw [List.dropWhile_append_of_pos hne, List.dropWhile_cons_of_neg (by decide)]
  have hspace : strip isPySpace (v ++ unit) = v ++ unit :=
    strip_eq_self fun b hb => (htoken b hb).1
  have hcomma : strip (fun b => b = 44) (v ++ unit) = v ++ unit :=
    strip_eq_self fun b hb => decide_eq_false (htoken b hb).2.1
  rw [hkeyEq, List.append_assoc, List.singleton_append, Analysis.parseToken,
    if_neg (not_not_intro hmem), htake, hdrop, strip_eq_self fun b hb => (hkey b hb).1,
    List.drop_one, List.tail_cons, hspace, hcomma]
  dsimp only
  rw [h.parseNumWithUnit (List.all_eq_true.mp hunit), Option.map_some]

/-- A numeral without a unit. -/
theorem IsNumeral.parseToken_plain {keyEq : Bytes} (h : IsNumeral v q)
    (hkeyEq : keyEq = key ++ [61]) (hkey : key.all (fun b => !isPySpace b && b != 61) = true) :
    Analysis.parseToken (keyEq ++ v) = some (key, q) := by
  have htoken := h.parseToken List.all_nil hkeyEq hkey
  have hplain : normalizeUnit [] q = q := rfl
  rwa [List.append_nil, hplain] at htoken

/-! ## The line as words -/

/-- Words with a space between two of them, and the newline behind the last. -/
def spaced : List Bytes → Bytes
  | [] => [10]
  | [w] => w ++ [10]
  | w :: w' :: ws => w ++ 32 :: spaced (w' :: ws)

/-- A word that `str.split` does not cut. -/
def IsWord (w : Bytes) : Prop := w ≠ [] ∧ ∀ b ∈ w, isPySpace b = false

theorem words_spaced {ws : List Bytes} (h : ∀ w ∈ ws, IsWord w) : words (spaced ws) = ws := by
  fun_induction spaced ws with
  | case1 => rfl
  | case2 w =>
    obtain ⟨hne, hw⟩ := h w List.mem_cons_self
    rw [words_append hne hw rfl]
    rfl
  | case3 w w' ws ih =>
    obtain ⟨hne, hw⟩ := h w List.mem_cons_self
    rw [words_append hne hw rfl, ih fun x hx => h x (List.mem_cons_of_mem w hx)]

/-- The numbers a line shows: tenths, thousandths of the two commit times, and integers. -/
structure PrintedStats where
  up : Nat
  rx : Nat
  db : Nat
  kbps : Nat
  avgPayload : Nat
  avgCommit : Nat
  maxCommit : Nat
  qlen : Nat
  qmax : Nat
  batch : Nat

def PrintedStats.words (p : PrintedStats) : List Bytes :=
  [ascii "GWSTAT", ascii "up=" ++ (Double.fixedPoint 1 p.up ++ ascii "s"),
    ascii "rx=" ++ Double.fixedPoint 1 p.rx, ascii "msg/s",
    ascii "db=" ++ Double.fixedPoint 1 p.db, ascii "row/s",
    ascii "kbps=" ++ Double.fixedPoint 1 p.kbps,
    ascii "avg_payload=" ++ (Double.fixedPoint 1 p.avgPayload ++ ascii "B"),
    ascii "avg_commit=" ++ (Double.fixedPoint 3 p.avgCommit ++ ascii "ms"),
    ascii "max_commit=" ++ (Double.fixedPoint 3 p.maxCommit ++ ascii "ms"),
    ascii "qlen=" ++ decimalNat p.qlen, ascii "qmax=" ++ decimalNat p.qmax,
    ascii "batch=" ++ decimalNat p.batch]

/-- The line of these numbers. -/
def PrintedStats.text (p : PrintedStats) : Bytes := spaced p.words

theorem IsNumeral.isWord {keyEq : Bytes} (h : IsNumeral v q)
    (hunit : unit.all isUnitByte = true) (hkey : keyEq.all (fun b => !isPySpace b) = true) :
    IsWord (keyEq ++ (v ++ unit)) := by
  constructor
  · intro hnil
    exact h.ne_nil (List.append_eq_nil_iff.mp (List.append_eq_nil_iff.mp hnil).2).1
  · intro b hb
    obtain hb | hb := List.mem_append.mp hb
    · exact (Bool.not_eq_true' _).mp (List.all_eq_true.mp hkey b hb)
    · exact (h.token (List.all_eq_true.mp hunit) b hb).1

theorem IsNumeral.isWord_plain {keyEq : Bytes} (h : IsNumeral v q)
    (hkey : keyEq.all (fun b => !isPySpace b) = true) : IsWord (keyEq ++ v) := by
  have hword := h.isWord List.all_nil hkey
  rwa [List.append_nil] at hword

variable (p : PrintedStats)

theorem isNumeral_tenths (n : Nat) : IsNumeral (Double.fixedPoint 1 n) (n / 10 ^ 1) :=
  isNumeral_fixedPoint Nat.one_pos n

theorem isNumeral_thousandths (n : Nat) : IsNumeral (Double.fixedPoint 3 n) (n / 10 ^ 3) :=
  isNumeral_fixedPoint (Nat.succ_pos 2) n

theorem isWord_literal (hne : w ≠ []) (h : w.all (fun b => !isPySpace b) = true) : IsWord w :=
  ⟨hne, fun b hb => (Bool.not_eq_true' _).mp (List.all_eq_true.mp h b hb)⟩

theorem PrintedStats.isWord_words : ∀ w ∈ p.words, IsWord w := by
  simp only [PrintedStats.words, List.forall_mem_cons, List.not_mem_nil, false_imp_iff,
    implies_true, and_true]
  refine ⟨?_, (isNumeral_tenths _).isWord rfl rfl,
    (isNumeral_tenths _).isWord_plain rfl, ?_,
    (isNumeral_tenths _).isWord_plain rfl, ?_,
    (isNumeral_tenths _).isWord_plain rfl,
    (isNumeral_tenths _).isWord rfl rfl,
    (isNumeral_thousandths _).isWord rfl rfl,
    (isNumeral_thousandths _).isWord rfl rfl,
    (isNumeral_decimalNat _).isWord_plain rfl,
    (isNumeral_decimalNat _).isWord_plain rfl,
    (isNumeral_decimalNat _).isWord_plain rfl⟩
  · exact isWord_literal (List.cons_ne_nil _ _) rfl
  · exact isWord_literal (List.cons_ne_nil _ _) rfl
  · exact isWord_literal (List.cons_ne_nil _ _) rfl

/-- The fields of the line, times in seconds. -/
def PrintedStats.fields : Dict Bytes ℚ :=
  [(ascii "up", p.up / 10 ^ 1), (ascii "rx", p.rx / 10 ^ 1), (ascii "db", p.db / 10 ^ 1),
    (ascii "kbps", p.kbps / 10 ^ 1), (ascii "avg_payload", p.avgPayload / 10 ^ 1),
    (ascii "avg_commit", p.avgCommit / 10 ^ 3 / 1000),
    (ascii "max_commit", p.maxCommit / 10 ^ 3 / 1000), (ascii "qlen", p.qlen),
    (ascii "qmax", p.qmax), (ascii "batch", p.batch)]

theorem filterMap_words : p.words.filterMap parseToken = p.fields := by
  have hword : ∀ w, (61 : UInt8) ∉ w → parseToken w = none := fun w hw => if_pos hw
  have hup : parseToken (ascii "up=" ++ (Double.fixedPoint 1 p.up ++ ascii "s")) =
      some (ascii "up", (p.up / 10 ^ 1 : ℚ)) :=
    (isNumeral_tenths p.up).parseToken rfl rfl rfl
  have hpayload : parseToken (ascii "avg_payload=" ++
        (Double.fixedPoint 1 p.avgPayload ++ ascii "B")) =
      some (ascii "avg_payload", (p.avgPayload / 10 ^ 1 : ℚ)) :=
    (isNumeral_tenths p.avgPayload).parseToken rfl rfl rfl
  have havg : parseToken (ascii "avg_commit=" ++
        (Double.fixedPoint 3 p.avgCommit ++ ascii "ms")) =
      some (ascii "avg_commit", (p.avgCommit / 10 ^ 3 / 1000 : ℚ)) :=
    (isNumeral_thousandths p.avgCommit).parseToken rfl rfl rfl
  have hmax : parseToken (ascii "max_commit=" ++
        (Double.fixedPoint 3 p.maxCommit ++ ascii "ms")) =
      some (ascii "max_commit", (p.maxCommit / 10 ^ 3 / 1000 : ℚ)) :=
    (isNumeral_thousandths p.maxCommit).parseToken rfl rfl rfl
  have hrx : parseToken (ascii "rx=" ++ Double.fixedPoint 1 p.rx) =
      some (ascii "rx", (p.rx / 10 ^ 1 : ℚ)) :=
    (isNumeral_tenths p.rx).parseToken_plain rfl rfl
  have hdb : parseToken (ascii "db=" ++ Double.fixedPoint 1 p.db) =
      some (ascii "db", (p.db / 10 ^ 1 : ℚ)) :=
    (isNumeral_tenths p.db).parseToken_plain rfl rfl
  have hkbps : parseToken (ascii "kbps=" ++ Double.fixedPoint 1 p.kbps) =
      some (ascii "kbps", (p.kbps / 10 ^ 1 : ℚ)) :=
    (isNumeral_tenths p.kbps).parseToken_plain rfl rfl
  have hqlen : parseToken (ascii "qlen=" ++ decimalNat p.qlen) =
      some (ascii "qlen", (p.qlen : ℚ)) :=
    (isNumeral_decimalNat p.qlen).parseToken_plain rfl rfl
  have hqmax : parseToken (ascii "qmax=" ++ decimalNat p.qmax) =
      some (ascii "qmax", (p.qmax : ℚ)) :=
    (isNumeral_decimalNat p.qmax).parseToken_plain rfl rfl
  have hbatch : parseToken (ascii "batch=" ++ decimalNat p.batch) =
      some (ascii "batch", (p.batch : ℚ)) :=
    (isNumeral_decimalNat p.batch).parseToken_plain rfl rfl
  simp only [PrintedStats.words, List.filterMap_cons, List.filterMap_nil,
    hword (ascii "GWSTAT") (by decide), hword (ascii "msg/s") (by decide),
    hword (ascii "row/s") (by decide), hup, hrx, hdb, hkbps, hpayload, havg, hmax, hqlen, hqmax,
    hbatch]
  rfl

/-- The tokens with a key and a number. -/
theorem parseGwstatLine_eq (line : Bytes) :
    parseGwstatLine line = Dict.ofItems ((words line).filterMap parseToken) := by
  rw [parseGwstatLine, words_strip, Dict.ofItems, List.foldl_filterMap]
  congr 1
  funext fields tok
  cases parseToken tok with
  | none => rfl
  | some item => rfl

theorem parseGwstatLine_text : parseGwstatLine p.text = p.fields := by
  rw [parseGwstatLine_eq, PrintedStats.text, words_spaced p.isWord_words, filterMap_words]
  rfl

/-! ## The line under `GWSTAT_RE` -/

/-- What the groups of the expression hold, the last one first. -/
def PrintedStats.captures : Captures :=
  [(ascii "batch", decimalNat p.batch), (ascii "qmax", decimalNat p.qmax),
    (ascii "qlen", decimalNat p.qlen), (ascii "max_commit", Double.fixedPoint 3 p.maxCommit),
    (ascii "avg_commit", Double.fixedPoint 3 p.avgCommit),
    (ascii "payload", Double.fixedPoint 1 p.avgPayload), (ascii "kbps", Double.fixedPoint 1 p.kbps),
    (ascii "db", Double.fixedPoint 1 p.db), (ascii "rx", Double.fixedPoint 1 p.rx),
    (ascii "up", Double.fixedPoint 1 p.up)]

section Fields

variable {α : Type} {prev : Option UInt8} {rest name : Bytes} {caps : Captures} {x : α}
  {k : Cursor → Captures → Option α} {rs : List Regex}

theorem run_word (w : Bytes) (hrest : Stops isPySpace rest)
    (hk : ∀ prev, (seq rs).run ⟨prev, rest⟩ caps k = some x) :
    (seq (exact w :: spaces :: rs)).run ⟨prev, w ++ 32 :: rest⟩ caps k = some x :=
  run_exact w fun _ => run_spaces hrest hk

/-- A number behind its key, and its unit. -/
theorem run_unitField (keyEq : Bytes) {c : UInt8} (h : IsNumeral v q)
    (hunit : isDecimalByte c = false) (hrest : Stops isPySpace rest)
    (hk : ∀ prev, (seq rs).run ⟨prev, rest⟩ ((name, v) :: caps) k = some x) :
    (seq (exact keyEq :: decimals name :: exact (c :: unit) :: spaces :: rs)).run
      ⟨prev, keyEq ++ (v ++ (c :: unit ++ 32 :: rest))⟩ caps k = some x := by
  apply run_exact
  intro prev
  apply run_capture h.ne_nil h.isDecimalByte
  · rw [Stops, List.cons_append, List.head?_cons, Option.all_some, hunit]
    rfl
  · intro prev
    exact run_word (c :: unit) hrest hk

theorem run_plainField (keyEq : Bytes) (h : IsNumeral v q) (hrest : Stops isPySpace rest)
    (hk : ∀ prev, (seq rs).run ⟨prev, rest⟩ ((name, v) :: caps) k = some x) :
    (seq (exact keyEq :: decimals name :: spaces :: rs)).run
      ⟨prev, keyEq ++ (v ++ 32 :: rest)⟩ caps k = some x := by
  apply run_exact
  intro prev
  apply run_capture h.ne_nil h.isDecimalByte
  · rfl
  · intro prev
    exact run_spaces hrest hk

theorem run_integerField (keyEq : Bytes) (n : Nat) (hrest : Stops isPySpace rest)
    (hk : ∀ prev, (seq rs).run ⟨prev, rest⟩ ((name, decimalNat n) :: caps) k = some x) :
    (seq (exact keyEq :: integers name :: spaces :: rs)).run
      ⟨prev, keyEq ++ (decimalNat n ++ 32 :: rest)⟩ caps k = some x := by
  apply run_exact
  intro prev
  apply run_capture (decimalNat_ne_nil n) fun b hb => isdigit_decimalNat hb
  · rfl
  · intro prev
    exact run_spaces hrest hk

end Fields

theorem search_text : gwstatRe.search p.text = some p.captures := by
  apply searchFrom_of_some
  rw [PrintedStats.text, PrintedStats.words, gwstatRe]
  simp only [spaced, List.append_assoc]
  refine run_word _ (by rfl) fun _ => ?_
  refine run_unitField _ (isNumeral_tenths p.up) (by rfl) (by rfl) fun _ => ?_
  refine run_plainField _ (isNumeral_tenths p.rx) (by rfl) fun _ => ?_
  refine run_word _ (by rfl) fun _ => ?_
  refine run_plainField _ (isNumeral_tenths p.db) (by rfl) fun _ => ?_
  refine run_word _ (by rfl) fun _ => ?_
  refine run_plainField _ (isNumeral_tenths p.kbps) (by rfl) fun _ => ?_
  refine run_unitField _ (isNumeral_tenths p.avgPayload) (by rfl) (by rfl) fun _ => ?_
  refine run_unitField _ (isNumeral_thousandths p.avgCommit) (by rfl) (by rfl) fun _ => ?_
  refine run_unitField _ (isNumeral_thousandths p.maxCommit) (by rfl) (by rfl) fun _ => ?_
  refine run_integerField _ p.qlen (by rfl) fun _ => ?_
  refine run_integerField _ p.qmax (by rfl) fun _ => ?_
  refine run_exact _ fun _ => ?_
  exact run_capture (decimalNat_ne_nil p.batch) (fun b hb => isdigit_decimalNat hb) rfl
    fun _ => rfl

/-- The sample of the line, commit times in milliseconds. -/
def PrintedStats.logSample : Dict Bytes (Option ℚ) :=
  [(ascii "up", some (p.up / 10 ^ 1)), (ascii "rx", some (p.rx / 10 ^ 1)),
    (ascii "db", some (p.db / 10 ^ 1)), (ascii "kbps", some (p.kbps / 10 ^ 1)),
    (ascii "payload", some (p.avgPayload / 10 ^ 1)),
    (ascii "avg_commit", some (p.avgCommit / 10 ^ 3)),
    (ascii "max_commit", some (p.maxCommit / 10 ^ 3)), (ascii "qlen", some p.qlen),
    (ascii "qmax", some p.qmax), (ascii "batch", some p.batch)]

theorem fint_decimalNat (n : Nat) : fint (some (decimalNat n)) = n := by
  rw [fint, Option.bind_some, pyFloat_decimalNat, Option.map_some, Option.getD_some,
    Rat.num_natCast, Rat.den_natCast, Nat.cast_one, Int.tdiv_one]

theorem gwstatSample_captures : gwstatSample p.captures = p.logSample := by
  have hgroups : gwstatNames.map (fun k => (k, ffloat (p.captures.get? k))) = p.logSample := by
    have hfixed : ∀ {name : Bytes} (k n : Nat),
        p.captures.get? name = some (Double.fixedPoint k n) →
        (name, ffloat (p.captures.get? name)) = (name, some (n / 10 ^ k : ℚ)) := by
      intro name k n h
      rw [h, ffloat, Option.bind_some, pyFloat_fixedPoint]
    have hinteger : ∀ {name : Bytes} (n : Nat), p.captures.get? name = some (decimalNat n) →
        (name, ffloat (p.captures.get? name)) = (name, some (n : ℚ)) := by
      intro name n h
      rw [h, ffloat, Option.bind_some, pyFloat_decimalNat]
    simp only [gwstatNames, List.map_cons, List.map_nil]
    rw [hfixed 1 p.up rfl, hfixed 1 p.rx rfl, hfixed 1 p.db rfl, hfixed 1 p.kbps rfl,
      hfixed 1 p.avgPayload rfl, hfixed 3 p.avgCommit rfl, hfixed 3 p.maxCommit rfl,
      hinteger p.qlen rfl, hinteger p.qmax rfl, hinteger p.batch rfl]
    rfl
  have hqlen : p.captures.get? (ascii "qlen") = some (decimalNat p.qlen) := rfl
  have hqmax : p.captures.get? (ascii "qmax") = some (decimalNat p.qmax) := rfl
  have hbatch : p.captures.get? (ascii "batch") = some (decimalNat p.batch) := rfl
  rw [gwstatSample, hgroups, hqlen, hqmax, hbatch, fint_decimalNat, fint_decimalNat,
    fint_decimalNat]
  rfl

theorem parseGwstatLog_append (before after : List Bytes) (warmupS : ℚ) :
    parseGwstatLog (before ++ after) warmupS =
      parseGwstatLog before warmupS ++ parseGwstatLog after warmupS :=
  List.filterMap_append

theorem parseGwstatLog_text (warmupS : ℚ) :
    parseGwstatLog [p.text] warmupS = if warmupS ≤ p.up / 10 ^ 1 then [p.logSample] else [] := by
  have hwarm : isWarm warmupS p.logSample = decide (warmupS ≤ p.up / 10 ^ 1) := rfl
  rw [parseGwstatLog, List.filterMap_cons, search_text, Option.bind_some, gwstatSample_captures,
    List.filterMap_nil]
  dsimp only
  rw [hwarm]
  by_cases h : warmupS ≤ p.up / 10 ^ 1
  · simp only [h, decide_true, if_true]
  · simp only [h, decide_false, if_false, Bool.false_eq_true]

/-- The sample `main` keeps of the line, commit times in milliseconds again. -/
def PrintedStats.sample (logFile : Bytes) : GwSample where
  runId := runIdFromName logFile
  logFile := logFile
  upS := p.up / 10 ^ 1
  rxMsgS := some (p.rx / 10 ^ 1)
  dbRowS := some (p.db / 10 ^ 1)
  kbps := some (p.kbps / 10 ^ 1)
  avgPayloadB := some (p.avgPayload / 10 ^ 1)
  avgCommitMs := some (p.avgCommit / 10 ^ 3)
  maxCommitMs := some (p.maxCommit / 10 ^ 3)
  qlen := some p.qlen
  qmax := some p.qmax
  batch := some p.batch
  stateRateHz := (inferConfigFromName logFile).2

theorem gwSample_fields (logFile : Bytes) (samples : List GwSample) :
    gwSample logFile samples p.fields = p.sample logFile := by
  have hback : ∀ q : ℚ, q / 1000 * 1000 = q := fun q => div_mul_cancel₀ q (by decide)
  have havg : p.fields.get? (ascii "avg_commit") = some (p.avgCommit / 10 ^ 3 / 1000 : ℚ) := rfl
  have hmax : p.fields.get? (ascii "max_commit") = some (p.maxCommit / 10 ^ 3 / 1000 : ℚ) := rfl
  have hbatch : p.fields.get? (ascii "batch") = some (p.batch : ℚ) := rfl
  simp only [gwSample, havg, hmax, hbatch, Option.map_some, hback, Rat.num_natCast,
    Rat.den_natCast, Nat.cast_one, Int.tdiv_one, Option.some_or]
  rfl

theorem readSamples_text (logFile : Bytes) (before : List Bytes) :
    readSamples logFile (before ++ [p.text]) =
      readSamples logFile before ++ [p.sample logFile] := by
  have hstart : (ascii "GWSTAT").isPrefixOf p.text = true :=
    List.isPrefixOf_iff_prefix.mpr (List.prefix_append _ _)
  rw [readSamples, List.foldl_append, List.foldl_cons, List.foldl_nil, if_pos hstart,
    parseGwstatLine_text, gwSample_fields]
  rfl

/-! ## What the gateway prints -/

/-- The numbers that `printf` shows of a round. -/
def printedStats (v : StatsValues) : PrintedStats where
  up := v.upS.units 1
  rx := v.rxRate.units 1
  db := v.dbRate.units 1
  kbps := v.kbps.units 1
  avgPayload := v.avgPayload.units 1
  avgCommit := v.avgCommitMs.units 3
  maxCommit := v.maxCommitMs.units 3
  qlen := v.qLen
  qmax := v.qMax
  batch := v.batchSize.toNat

theorem line_eq_text {v : StatsValues} (h : v.Printable) : v.line = (printedStats v).text := by
  have hbatch : decimal v.batchSize = decimalNat v.batchSize.toNat := by
    have habs : v.batchSize.natAbs = v.batchSize.toNat := by
      have := h.batchSize
      omega
    rw [decimal, if_neg (Int.not_lt.mpr h.batchSize), habs]
  -- the pieces of the format string, cut at its spaces
  have hup : ascii "GWSTAT up=" = ascii "GWSTAT" ++ 32 :: ascii "up=" := rfl
  have hrx : ascii "s rx=" = ascii "s" ++ 32 :: ascii "rx=" := rfl
  have hdb : ascii " msg/s db=" = 32 :: ascii "msg/s" ++ 32 :: ascii "db=" := rfl
  have hkbps : ascii " row/s kbps=" = 32 :: ascii "row/s" ++ 32 :: ascii "kbps=" := rfl
  have hpayload : ascii " avg_payload=" = 32 :: ascii "avg_payload=" := rfl
  have havg : ascii "B avg_commit=" = ascii "B" ++ 32 :: ascii "avg_commit=" := rfl
  have hmax : ascii "ms max_commit=" = ascii "ms" ++ 32 :: ascii "max_commit=" := rfl
  have hqlen : ascii "ms qlen=" = ascii "ms" ++ 32 :: ascii "qlen=" := rfl
  have hqmax : ascii " qmax=" = 32 :: ascii "qmax=" := rfl
  have hlast : ascii " batch=" = 32 :: ascii "batch=" := rfl
  delta StatsValues.line
  simp only [PrintedStats.text, PrintedStats.words, printedStats, spaced,
    h.upS.formatFixed, h.rxRate.formatFixed, h.dbRate.formatFixed, h.kbps.formatFixed,
    h.avgPayload.formatFixed, h.avgCommitMs.formatFixed, h.maxCommitMs.formatFixed, hbatch, hup,
    hrx, hdb, hkbps, hpayload, havg, hmax, hqlen, hqmax, hlast, List.append_assoc,
    List.cons_append]

/-- **Both decoders read what the gateway prints.** `last` and `now` are the snapshots of two
rounds of a run, so no counter goes back between them (`Before`). The line that `stats_thread`
prints of them, with its doubles and its rounding, is the text of certain decimals
(`printedStats`). In any log, whatever stands before and behind it, the expression of the one
script finds exactly this line's sample where the line is warm, with every field the decimal
that is printed. The tokens of the other script are its fields, and behind any lines they give
its sample, with the times in milliseconds again. -/
theorem gwstat_read_back {startMonoNs : Int} (gwBatch : Option Bytes) {last now : StatsSnapshot}
    (hlast : (StatsSnapshot.start startMonoNs).Before last) (hnow : last.Before now) :
    let v := statsValues startMonoNs gwBatch last now
    let p := printedStats v
    v.line = p.text ∧
      (∀ before after warmupS, parseGwstatLog (before ++ v.line :: after) warmupS =
        parseGwstatLog before warmupS ++
          ((if warmupS ≤ p.up / 10 ^ 1 then [p.logSample] else []) ++
            parseGwstatLog after warmupS)) ∧
      parseGwstatLine v.line = p.fields ∧
      ∀ logFile before, readSamples logFile (before ++ [v.line]) =
        readSamples logFile before ++ [p.sample logFile] := by
  intro v p
  have htext : v.line = p.text := line_eq_text (printable_statsValues gwBatch hlast hnow)
  rw [htext]
  refine ⟨rfl, ?_, parseGwstatLine_text p, readSamples_text p⟩
  intro before after warmupS
  rw [← List.singleton_append, parseGwstatLog_append, parseGwstatLog_append,
    parseGwstatLog_text]

/-- The first second of a run. -/
theorem gwstat_read_back_second :
    let now : StatsSnapshot := ⟨1000000000, 200, 29640, 150, 3, 3700000, 2500000, 0, 50⟩
    let line := (statsValues 0 none (StatsSnapshot.start 0) now).line
    line = ascii "GWSTAT up=1.0s rx=200.0 msg/s db=150.0 row/s kbps=237.1 " ++
        ascii "avg_payload=148.2B avg_commit=1.233ms max_commit=2.500ms " ++
        ascii "qlen=0 qmax=50 batch=50\n" ∧
      parseGwstatLine line =
        (printedStats (statsValues 0 none (StatsSnapshot.start 0) now)).fields := by
  intro now line
  have hstart : (StatsSnapshot.start 0).Before (StatsSnapshot.start 0) := by
    constructor <;> exact le_refl _
  have hnow : (StatsSnapshot.start 0).Before now := by
    constructor <;> decide
  exact ⟨by decide, (gwstat_read_back none hstart hnow).2.2.1⟩

end TelemetryTestbed.Analysis
