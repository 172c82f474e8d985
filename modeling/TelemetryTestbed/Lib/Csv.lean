import Mathlib.Data.List.Forall2

/-!
# CSV records

The reader of Python's `csv` module, character by character as it is written there, on
the lines of a file that is opened without newline translation. A record is read back
from any text that spells its fields, each bare or quoted (`read_spelled`).

The order of the cases is that of the C source of the module, with its end-of-line marker as a
call of its own. The limit on the size of a field (`csv.field_size_limit`) is taken apart from
the reading: `readWithin` refuses a text in which some field is too long, which is where the
module raises its error, and below the limit it is the reader itself (`readWithin_of_fit`).
-/

namespace TelemetryTestbed.Lib.Csv

variable {χ : Type} [DecidableEq χ]

/-- The characters that mean something, no two of which are the same. -/
structure Dialect (χ : Type) where
  delimiter : χ
  quote : χ
  cr : χ
  lf : χ
  delimiter_ne_quote : delimiter ≠ quote
  delimiter_ne_cr : delimiter ≠ cr
  delimiter_ne_lf : delimiter ≠ lf
  quote_ne_cr : quote ≠ cr
  quote_ne_lf : quote ≠ lf
  cr_ne_lf : cr ≠ lf

abbrev Field (χ : Type) := List χ

abbrev Record (χ : Type) := List (Field χ)

/-! ## The reader -/

/-- Where the reader is in a record. -/
inductive State
  | startRecord
  | startField
  | inField
  | inQuotedField
  | quoteInQuotedField
  /-- behind the end of a record -/
  | eatCrnl
  deriving DecidableEq

/-- The reader between two characters: its state, the field so far, and the fields before it. -/
structure Parser (χ : Type) where
  state : State
  field : Field χ
  fields : Record χ

namespace Parser

/-- `parse_reset` -/
def reset : Parser χ := ⟨.startRecord, [], []⟩

/-- `parse_save_field` -/
def save (p : Parser χ) (state : State) : Parser χ := ⟨state, [], p.fields ++ [p.field]⟩

/-- `parse_add_char` -/
def add (p : Parser χ) (c : χ) (state : State) : Parser χ := ⟨state, p.field ++ [c], p.fields⟩

variable (D : Dialect χ)

/-- The first character of a field. -/
def startField (p : Parser χ) (c : χ) : Parser χ :=
  if c = D.lf ∨ c = D.cr then p.save .eatCrnl
  else if c = D.quote then { p with state := .inQuotedField }
  else if c = D.delimiter then p.save .startField
  else p.add c .inField

/-- `parse_process_char`; `none` is the error. -/
def processChar (p : Parser χ) (c : χ) : Option (Parser χ) :=
  match p.state with
  | .startRecord =>
    if c = D.lf ∨ c = D.cr then some { p with state := .eatCrnl } else some (p.startField D c)
  | .startField => some (p.startField D c)
  | .inField =>
    if c = D.lf ∨ c = D.cr then some (p.save .eatCrnl)
    else if c = D.delimiter then some (p.save .startField)
    else some (p.add c .inField)
  | .inQuotedField =>
    if c = D.quote then some { p with state := .quoteInQuotedField }
    else some (p.add c .inQuotedField)
  | .quoteInQuotedField =>
    if c = D.quote then some (p.add c .inQuotedField)
    else if c = D.delimiter then some (p.save .startField)
    else if c = D.lf ∨ c = D.cr then some (p.save .eatCrnl)
    else some (p.add c .inField)
  | .eatCrnl => if c = D.lf ∨ c = D.cr then some p else none

/-- `parse_process_char` for the end of a line. -/
def processEol (p : Parser χ) : Parser χ :=
  match p.state with
  | .startRecord | .inQuotedField => p
  | .startField | .inField | .quoteInQuotedField => p.save .startRecord
  | .eatCrnl => { p with state := .startRecord }

def processLine (p : Parser χ) (line : List χ) : Option (Parser χ) :=
  (line.foldlM (processChar D) p).map processEol

end Parser

/-- The records of lines, the first one begun already. At the end a record that is still
open counts if there is something in it. -/
def readLines (D : Dialect χ) : Parser χ → List (List χ) → Option (List (Record χ))
  | p, [] =>
    if p.field ≠ [] ∨ p.state = .inQuotedField then some [(p.save .startRecord).fields]
    else some []
  | p, line :: lines =>
    (p.processLine D line).bind fun p =>
      if p.state = .startRecord then (readLines D .reset lines).map (p.fields :: ·)
      else readLines D p lines

/-- The lines of a file with `newline=""`: they end behind `\n`, `\r` or `\r\n`, and keep
their ends. -/
def linesFrom (D : Dialect χ) : List χ → List χ → List (List χ)
  | line, [] => if line = [] then [] else [line]
  | line, c :: text =>
    if c = D.lf ∨ c = D.cr ∧ text.head? ≠ some D.lf then (line ++ [c]) :: linesFrom D [] text
    else linesFrom D (line ++ [c]) text

/-- `list(csv.reader(f))` -/
def read (D : Dialect χ) (text : List χ) : Option (List (Record χ)) :=
  readLines D .reset (linesFrom D [] text)

/-- `list(csv.reader(f))` under `csv.field_size_limit()`: `parse_add_char` raises the error for
the character that makes a field longer than the limit. Whatever is added to a field comes
out in a record if nothing else is an error, so the fields that come out are the ones to be
measured. `size` is the length in characters, where `χ` is something smaller. -/
def readWithin (D : Dialect χ) (size : Field χ → Nat) (limit : Nat) (text : List χ) :
    Option (List (Record χ)) :=
  (read D text).filter fun records => records.all fun r => r.all fun x => size x ≤ limit

omit [DecidableEq χ] in
theorem all_fit {size : Field χ → Nat} {limit : Nat} {records : List (Record χ)} :
    (records.all fun r => r.all fun x => size x ≤ limit) = true ↔
      ∀ r ∈ records, ∀ x ∈ r, size x ≤ limit := by
  simp only [List.all_eq_true, decide_eq_true_eq]

/-- Records of short enough fields are read as if there were no limit. -/
theorem readWithin_of_fit {D : Dialect χ} {size : Field χ → Nat} {limit : Nat} {text : List χ}
    {records : List (Record χ)} (h : read D text = some records)
    (hfit : ∀ r ∈ records, ∀ x ∈ r, size x ≤ limit) :
    readWithin D size limit text = some records := by
  rw [readWithin, h, Option.filter_some, if_pos (all_fit.mpr hfit)]

/-- One field that is too long, and nothing is read. -/
theorem readWithin_of_not_fit {D : Dialect χ} {size : Field χ → Nat} {limit : Nat}
    {text : List χ} {records : List (Record χ)} (h : read D text = some records)
    (hfit : ¬ ∀ r ∈ records, ∀ x ∈ r, size x ≤ limit) : readWithin D size limit text = none := by
  rw [readWithin, h, Option.filter_some, if_neg (mt all_fit.mp hfit)]

/-! ## The spelling of a field -/

/-- Each quote twice. -/
def double (D : Dialect χ) (x : Field χ) : Field χ :=
  x.flatMap fun c => if c = D.quote then [c, c] else [c]

def quoted (D : Dialect χ) (x : Field χ) : Field χ := D.quote :: (double D x ++ [D.quote])

/-- A field that can stand bare: it has no delimiter and no end of a line in it, and no quote at
its head. -/
structure Plain (D : Dialect χ) (x : Field χ) : Prop where
  head : x.head? ≠ some D.quote
  mem : ∀ c ∈ x, c ≠ D.delimiter ∧ c ≠ D.cr ∧ c ≠ D.lf

/-- The first text is a spelling of the second as a field, bare where it can be, or quoted. -/
inductive Spelled (D : Dialect χ) : Field χ → Field χ → Prop
  | bare {x : Field χ} (h : Plain D x) : Spelled D x x
  | quoted (x : Field χ) : Spelled D (quoted D x) x

/-- The text of a record: spellings of its fields with delimiters between them. -/
inductive RecordText (D : Dialect χ) : List χ → Record χ → Prop
  | last {t : List χ} {x : Field χ} (h : Spelled D t x) : RecordText D t [x]
  | cons {t text : List χ} {x : Field χ} {r : Record χ} (h : Spelled D t x)
    (hr : RecordText D text r) : RecordText D (t ++ D.delimiter :: text) (x :: r)

/-- The texts with delimiters between them. -/
def join (D : Dialect χ) : List (List χ) → List χ
  | [] => []
  | [t] => t
  | t :: ts => t ++ D.delimiter :: join D ts

omit [DecidableEq χ] in
theorem join_cons_cons (D : Dialect χ) (t u : List χ) (ts : List (List χ)) :
    join D (t :: u :: ts) = t ++ D.delimiter :: join D (u :: ts) := rfl

theorem RecordText.join {D : Dialect χ} {ts : List (List χ)} {r : Record χ}
    (h : List.Forall₂ (Spelled D) ts r) (hne : r ≠ []) : RecordText D (join D ts) r := by
  induction h with
  | nil => exact absurd rfl hne
  | @cons t x ts r hx hr ih =>
    cases hr with
    | nil => exact .last hx
    | cons hx' hr' => exact .cons hx (ih (List.cons_ne_nil _ _))

/-- A record on a line of its own. An empty line is a record of no field, so a record of one
empty field has to be quoted. -/
structure LineSpelled (D : Dialect χ) (text : List χ) (r : Record χ) : Prop where
  spelled : RecordText D text r
  visible : text ≠ []

/-! ## Lines do not matter inside a field -/

variable {D : Dialect χ}

/-- The reader on a text, without its lines. `begun` says that there is something in the
line already. -/
def readFrom (D : Dialect χ) : Bool → Parser χ → List χ → Option (List (Record χ))
  | begun, p, [] =>
    if begun then
      if p.processEol.state = .startRecord then some [p.processEol.fields]
      else readLines D p.processEol []
    else readLines D p []
  | _, p, c :: text =>
    (p.processChar D c).bind fun p =>
      if c = D.lf ∨ c = D.cr ∧ text.head? ≠ some D.lf then
        if p.processEol.state = .startRecord then
          (readFrom D false .reset text).map (p.processEol.fields :: ·)
        else readFrom D false p.processEol text
      else readFrom D true p text

theorem foldlM_concat (p : Parser χ) (line : List χ) (c : χ) :
    (line ++ [c]).foldlM (Parser.processChar D) p =
      (line.foldlM (Parser.processChar D) p).bind fun q => q.processChar D c := by
  rw [List.foldlM_append]
  cases line.foldlM (Parser.processChar D) p with
  | none => rfl
  | some q => exact Option.bind_fun_some (q.processChar D c)

theorem readLines_linesFrom (line text : List χ) (p : Parser χ) :
    readLines D p (linesFrom D line text) =
      (line.foldlM (Parser.processChar D) p).bind fun q => readFrom D (line ≠ []) q text := by
  induction text generalizing line p with
  | nil =>
    by_cases hline : line = []
    · subst hline
      rfl
    · rw [linesFrom, if_neg hline, readLines, Parser.processLine]
      cases line.foldlM (Parser.processChar D) p with
      | none => rfl
      | some q => simp [readFrom, hline, readLines, Parser.reset]
  | cons c text ih =>
    rw [linesFrom]
    split
    next hends =>
      rw [readLines, Parser.processLine, foldlM_concat]
      cases line.foldlM (Parser.processChar D) p with
      | none => rfl
      | some q =>
        simp only [Option.bind_some, readFrom, if_pos hends]
        cases q.processChar D c with
        | none => rfl
        | some q => simp [ih]
    next hends =>
      rw [ih, foldlM_concat]
      cases line.foldlM (Parser.processChar D) p with
      | none => rfl
      | some q => simp [readFrom, hends]

theorem read_eq (text : List χ) : read D text = readFrom D false .reset text :=
  readLines_linesFrom [] text .reset

/-! ## A field is read back -/

theorem readFrom_begun {text : List χ} (h : text ≠ []) (b b' : Bool) (p : Parser χ) :
    readFrom D b p text = readFrom D b' p text := by
  cases text with
  | nil => exact absurd rfl h
  | cons c text => rfl

/-- A character that ends no line. -/
theorem readFrom_cons {c : χ} (hcr : c ≠ D.cr) (hlf : c ≠ D.lf) (b : Bool) (p : Parser χ)
    (text : List χ) :
    readFrom D b p (c :: text) = (p.processChar D c).bind fun p => readFrom D true p text := by
  have hends : ¬ (c = D.lf ∨ c = D.cr ∧ text.head? ≠ some D.lf) := by
    rintro (h | ⟨h, -⟩)
    · exact hlf h
    · exact hcr h
  simp only [readFrom, if_neg hends]

/-- In a quoted field lines end and begin unnoticed. -/
theorem readFrom_inQuoted {c : χ} {text : List χ} (hc : c ≠ D.quote) (h : text ≠ []) (b : Bool)
    (x : Field χ) (fs : Record χ) :
    readFrom D b ⟨.inQuotedField, x, fs⟩ (c :: text) =
      readFrom D true ⟨.inQuotedField, x ++ [c], fs⟩ text := by
  have hchar : Parser.processChar D ⟨.inQuotedField, x, fs⟩ c =
      some ⟨.inQuotedField, x ++ [c], fs⟩ := if_neg hc
  rw [readFrom, hchar]
  show (if _ then readFrom D false _ text else _) = _
  split
  · exact readFrom_begun h false true _
  · rfl

theorem readFrom_double {text : List χ} (h : text ≠ []) (b : Bool) (x y : Field χ)
    (fs : Record χ) :
    readFrom D b ⟨.inQuotedField, x, fs⟩ (double D y ++ text) =
      readFrom D true ⟨.inQuotedField, x ++ y, fs⟩ text := by
  induction y generalizing b x with
  | nil =>
    rw [List.append_nil]
    exact readFrom_begun h b true _
  | cons c y ih =>
    have hne : double D y ++ text ≠ [] := List.append_ne_nil_of_right_ne_nil _ h
    have hassoc : x ++ c :: y = (x ++ [c]) ++ y := by rw [List.append_assoc, List.singleton_append]
    rw [hassoc, ← ih true (x ++ [c])]
    by_cases hc : c = D.quote
    · subst hc
      have hfirst : Parser.processChar D ⟨.inQuotedField, x, fs⟩ D.quote =
          some ⟨.quoteInQuotedField, x, fs⟩ := if_pos rfl
      have hsecond : Parser.processChar D ⟨.quoteInQuotedField, x, fs⟩ D.quote =
          some ⟨.inQuotedField, x ++ [D.quote], fs⟩ := if_pos rfl
      have htwo : double D (D.quote :: y) ++ text =
          D.quote :: D.quote :: (double D y ++ text) := by
        simp [double]
      rw [htwo, readFrom_cons D.quote_ne_cr D.quote_ne_lf, hfirst, Option.bind_some,
        readFrom_cons D.quote_ne_cr D.quote_ne_lf, hsecond, Option.bind_some]
    · have hone : double D (c :: y) ++ text = c :: (double D y ++ text) := by
        simp [double, hc]
      rw [hone, readFrom_inQuoted hc hne]

/-- The characters of a bare field. -/
theorem readFrom_inField {text : List χ} (h : text ≠ []) (b : Bool) {y : Field χ}
    (hy : ∀ c ∈ y, c ≠ D.delimiter ∧ c ≠ D.cr ∧ c ≠ D.lf) (x : Field χ) (fs : Record χ) :
    readFrom D b ⟨.inField, x, fs⟩ (y ++ text) = readFrom D true ⟨.inField, x ++ y, fs⟩ text := by
  induction y generalizing b x with
  | nil =>
    rw [List.append_nil]
    exact readFrom_begun h b true _
  | cons c y ih =>
    obtain ⟨hdelim, hcr, hlf⟩ := hy c List.mem_cons_self
    have hchar : Parser.processChar D ⟨.inField, x, fs⟩ c = some ⟨.inField, x ++ [c], fs⟩ := by
      simp [Parser.processChar, Parser.add, hdelim, hcr, hlf]
    have hassoc : x ++ c :: y = (x ++ [c]) ++ y := by rw [List.append_assoc, List.singleton_append]
    rw [List.cons_append, readFrom_cons hcr hlf, hchar, Option.bind_some,
      ih true (fun c hc => hy c (List.mem_cons_of_mem _ hc)), hassoc]

/-- The field `x` is read behind the fields `fs`, and what follows may end it. -/
structure Parser.Ready (p : Parser χ) (x : Field χ) (fs : Record χ) : Prop where
  state : p.state = .startField ∨ p.state = .inField ∨ p.state = .quoteInQuotedField
  field : p.field = x
  fields : p.fields = fs

theorem readFrom_field {t x text : List χ} (hx : Spelled D t x) (h : text ≠ []) (b : Bool)
    (fs : Record χ) :
    ∃ p : Parser χ, p.Ready x fs ∧
      readFrom D b ⟨.startField, [], fs⟩ (t ++ text) = readFrom D true p text := by
  cases hx with
  | bare hplain =>
    obtain ⟨hhead, hmem⟩ := hplain
    cases t with
    | nil => exact ⟨⟨.startField, [], fs⟩, ⟨Or.inl rfl, rfl, rfl⟩, readFrom_begun h b true _⟩
    | cons c t =>
      obtain ⟨hdelim, hcr, hlf⟩ := hmem c List.mem_cons_self
      have hquote : c ≠ D.quote := fun e => hhead (congrArg some e)
      have hchar : Parser.processChar D ⟨.startField, [], fs⟩ c = some ⟨.inField, [c], fs⟩ := by
        simp [Parser.processChar, Parser.startField, Parser.add, hdelim, hcr, hlf, hquote]
      refine ⟨⟨.inField, c :: t, fs⟩, ⟨Or.inr (Or.inl rfl), rfl, rfl⟩, ?_⟩
      rw [List.cons_append, readFrom_cons hcr hlf, hchar, Option.bind_some,
        readFrom_inField h true fun c hc => hmem c (List.mem_cons_of_mem _ hc)]
      rfl
  | quoted =>
    have hopen : Parser.processChar D ⟨.startField, [], fs⟩ D.quote =
        some ⟨.inQuotedField, [], fs⟩ := by
      simp [Parser.processChar, Parser.startField, D.quote_ne_cr, D.quote_ne_lf]
    have hclose : Parser.processChar D ⟨.inQuotedField, x, fs⟩ D.quote =
        some ⟨.quoteInQuotedField, x, fs⟩ := if_pos rfl
    have hne : [D.quote] ++ text ≠ [] := List.cons_ne_nil _ _
    refine ⟨⟨.quoteInQuotedField, x, fs⟩, ⟨Or.inr (Or.inr rfl), rfl, rfl⟩, ?_⟩
    rw [quoted, List.cons_append, List.append_assoc, readFrom_cons D.quote_ne_cr D.quote_ne_lf,
      hopen, Option.bind_some, readFrom_double hne, List.nil_append, List.singleton_append,
      readFrom_cons D.quote_ne_cr D.quote_ne_lf, hclose, Option.bind_some]

theorem Parser.Ready.delimiter {p : Parser χ} {x : Field χ} {fs : Record χ} (h : p.Ready x fs)
    (b : Bool) (text : List χ) :
    readFrom D b p (D.delimiter :: text) =
      readFrom D true ⟨.startField, [], fs ++ [x]⟩ text := by
  obtain ⟨state, field, fields⟩ := p
  obtain ⟨hstate, rfl, rfl⟩ := h
  have hchar : Parser.processChar D ⟨state, field, fields⟩ D.delimiter =
      some ⟨.startField, [], fields ++ [field]⟩ := by
    rcases hstate with rfl | rfl | rfl <;>
      simp [Parser.processChar, Parser.startField, Parser.save, D.delimiter_ne_quote,
        D.delimiter_ne_cr, D.delimiter_ne_lf]
  rw [readFrom_cons D.delimiter_ne_cr D.delimiter_ne_lf, hchar, Option.bind_some]

/-- The end of a record. -/
theorem Parser.Ready.newline {p : Parser χ} {x : Field χ} {fs : Record χ} (h : p.Ready x fs)
    (b : Bool) (text : List χ) {eol : List χ} (heol : eol = [D.lf] ∨ eol = [D.cr, D.lf]) :
    readFrom D b p (eol ++ text) =
      (readFrom D false .reset text).map ((fs ++ [x]) :: ·) := by
  obtain ⟨state, field, fields⟩ := p
  obtain ⟨hstate, rfl, rfl⟩ := h
  have hchar : ∀ c, c = D.lf ∨ c = D.cr → Parser.processChar D ⟨state, field, fields⟩ c =
      some ⟨.eatCrnl, [], fields ++ [field]⟩ := by
    have hquote : D.cr ≠ D.quote ∧ D.lf ≠ D.quote := ⟨D.quote_ne_cr.symm, D.quote_ne_lf.symm⟩
    have hdelim : D.cr ≠ D.delimiter ∧ D.lf ≠ D.delimiter :=
      ⟨D.delimiter_ne_cr.symm, D.delimiter_ne_lf.symm⟩
    rintro c (rfl | rfl) <;> rcases hstate with rfl | rfl | rfl <;>
      simp [Parser.processChar, Parser.startField, Parser.save, hquote, hdelim]
  have heat : Parser.processChar D ⟨.eatCrnl, [], fields ++ [field]⟩ D.lf =
      some ⟨.eatCrnl, [], fields ++ [field]⟩ := if_pos (Or.inl rfl)
  have hend : ∀ b, (readFrom D b ⟨.eatCrnl, [], fields ++ [field]⟩ (D.lf :: text)) =
      (readFrom D false .reset text).map ((fields ++ [field]) :: ·) := by
    intro b
    rw [readFrom, heat, Option.bind_some, if_pos (Or.inl rfl)]
    exact if_pos rfl
  rcases heol with rfl | rfl
  · rw [List.singleton_append, readFrom, hchar _ (Or.inl rfl), Option.bind_some,
      if_pos (Or.inl rfl)]
    exact if_pos rfl
  · have hmiddle : ¬ (D.cr = D.lf ∨ D.cr = D.cr ∧ (D.lf :: text).head? ≠ some D.lf) := by
      rintro (h | ⟨-, h⟩)
      · exact D.cr_ne_lf h
      · exact h rfl
    rw [List.cons_append, List.singleton_append, readFrom, hchar _ (Or.inr rfl), Option.bind_some,
      if_neg hmiddle]
    exact hend true

/-! ## A file is read back -/

theorem readFrom_record {text rest : List χ} {r : Record χ} (h : RecordText D text r)
    {eol : List χ} (heol : eol = [D.lf] ∨ eol = [D.cr, D.lf]) (b : Bool) (fs : Record χ) :
    readFrom D b ⟨.startField, [], fs⟩ (text ++ (eol ++ rest)) =
      (readFrom D false .reset rest).map ((fs ++ r) :: ·) := by
  have hne : eol ++ rest ≠ [] := by
    rcases heol with rfl | rfl <;> exact List.cons_ne_nil _ _
  induction h generalizing b fs with
  | last hx =>
    obtain ⟨p, hready, hp⟩ := readFrom_field hx hne b fs
    rw [hp, hready.newline true rest heol]
  | @cons t text x r hx hr ih =>
    obtain ⟨p, hready, hp⟩ := readFrom_field hx
      (List.cons_ne_nil D.delimiter (text ++ (eol ++ rest))) b fs
    rw [List.append_assoc, List.cons_append, hp, hready.delimiter, ih, List.append_assoc,
      List.singleton_append]

theorem Spelled.head {t x : List χ} (h : Spelled D t x) {c : χ} (hc : t.head? = some c) :
    c ≠ D.cr ∧ c ≠ D.lf := by
  cases h with
  | quoted =>
    obtain rfl := Option.some.inj hc
    exact ⟨D.quote_ne_cr, D.quote_ne_lf⟩
  | bare hplain => exact (hplain.mem c (List.mem_of_head? hc)).2

/-- The first field of a record begins as every other. -/
theorem RecordText.start {text rest : List χ} {r : Record χ} (h : RecordText D text r)
    (hne : text ≠ []) (b : Bool) :
    readFrom D b .reset (text ++ rest) = readFrom D b ⟨.startField, [], []⟩ (text ++ rest) := by
  obtain ⟨c, text, rfl⟩ := List.exists_cons_of_ne_nil hne
  have hc : c ≠ D.cr ∧ c ≠ D.lf := by
    generalize hl : c :: text = l at h
    cases h with
    | last hx =>
      subst hl
      exact hx.head rfl
    | @cons t _ _ _ hx _ =>
      cases t with
      | nil =>
        obtain ⟨rfl, -⟩ := List.cons.inj hl
        exact ⟨D.delimiter_ne_cr, D.delimiter_ne_lf⟩
      | cons d t =>
        obtain ⟨rfl, -⟩ := List.cons.inj hl
        exact hx.head rfl
  have hchar : (Parser.reset : Parser χ).processChar D c =
      Parser.processChar D ⟨.startField, [], []⟩ c := by
    simp [Parser.processChar, Parser.reset, Parser.startField, Parser.save, Parser.add, hc]
  rw [List.cons_append, readFrom_cons hc.1 hc.2, readFrom_cons hc.1 hc.2, hchar]

/-- The records of a file are those its lines spell, whatever stands in their quotes. -/
theorem read_spelled {rows : List (List χ × Record χ)} {eol : List χ}
    (heol : eol = [D.lf] ∨ eol = [D.cr, D.lf]) (h : ∀ row ∈ rows, LineSpelled D row.1 row.2) :
    read D (rows.flatMap fun row => row.1 ++ eol) = some (rows.map Prod.snd) := by
  rw [read_eq]
  induction rows with
  | nil => rfl
  | cons row rows ih =>
    obtain ⟨htext, hne⟩ := h row List.mem_cons_self
    rw [List.flatMap_cons, List.append_assoc, htext.start hne, readFrom_record htext heol,
      ih fun row hrow => h row (List.mem_cons_of_mem _ hrow)]
    rfl

/-! ## The writer -/

/-- A field with a character in it that means something. -/
def needsQuotes (D : Dialect χ) (x : Field χ) : Bool :=
  x.any fun c => c = D.delimiter || c = D.quote || c = D.cr || c = D.lf

/-- A field with `QUOTE_MINIMAL`. -/
def spell (D : Dialect χ) (x : Field χ) : Field χ := if needsQuotes D x then quoted D x else x

/-- `writer.writerow`: an empty field is quoted where it is alone. -/
def writeRow (D : Dialect χ) (r : Record χ) : List χ :=
  (if r = [[]] then quoted D [] else join D (r.map (spell D))) ++ [D.cr, D.lf]

theorem spelled_spell (x : Field χ) : Spelled D (spell D x) x := by
  unfold spell
  split
  next => exact .quoted x
  next h =>
    have hfree : ∀ c ∈ x, c ≠ D.delimiter ∧ c ≠ D.quote ∧ c ≠ D.cr ∧ c ≠ D.lf := by
      simpa [needsQuotes, and_assoc] using h
    refine .bare ⟨fun hx => (hfree _ (List.mem_of_head? hx)).2.1 rfl, fun c hc => ?_⟩
    obtain ⟨hdelim, -, hcr, hlf⟩ := hfree c hc
    exact ⟨hdelim, hcr, hlf⟩

theorem spell_ne_nil {x : Field χ} (h : x ≠ []) : spell D x ≠ [] := by
  unfold spell
  split
  · exact List.cons_ne_nil _ _
  · exact h

/-- A record of at least one field is read back from its line. -/
theorem lineSpelled_writeRow {r : Record χ} (h : r ≠ []) :
    ∃ text, writeRow D r = text ++ [D.cr, D.lf] ∧ LineSpelled D text r := by
  refine ⟨_, rfl, ?_⟩
  split
  next hone =>
    subst hone
    exact ⟨.last (.quoted []), List.cons_ne_nil _ _⟩
  next hone =>
    refine ⟨.join (List.forall₂_map_left_iff.mpr (List.forall₂_same.mpr fun x _ =>
      spelled_spell x)) h, ?_⟩
    cases r with
    | nil => exact absurd rfl h
    | cons x r =>
      cases r with
      | nil => exact spell_ne_nil fun hx => hone (by rw [hx])
      | cons y r =>
        rw [List.map_cons, List.map_cons, join_cons_cons]
        exact List.append_ne_nil_of_right_ne_nil _ (List.cons_ne_nil _ _)

/-- What is written is read back. -/
theorem read_writeRow {rows : List (Record χ)} (h : ∀ r ∈ rows, r ≠ []) :
    read D (rows.flatMap (writeRow D)) = some rows := by
  have htexts : ∃ lines : List (List χ × Record χ), lines.map Prod.snd = rows ∧
      rows.flatMap (writeRow D) = lines.flatMap (fun line => line.1 ++ [D.cr, D.lf]) ∧
      ∀ line ∈ lines, LineSpelled D line.1 line.2 := by
    induction rows with
    | nil => exact ⟨[], rfl, rfl, nofun⟩
    | cons r rows ih =>
      obtain ⟨lines, hrows, htext, hspelled⟩ := ih fun r hr => h r (List.mem_cons_of_mem _ hr)
      obtain ⟨text, hr, hline⟩ := lineSpelled_writeRow (D := D) (h r List.mem_cons_self)
      refine ⟨(text, r) :: lines, by rw [List.map_cons, hrows], ?_, ?_⟩
      · rw [List.flatMap_cons, List.flatMap_cons, hr, htext]
      · exact List.forall_mem_cons.mpr ⟨hline, hspelled⟩
  obtain ⟨lines, rfl, htext, hspelled⟩ := htexts
  rw [htext, read_spelled (Or.inr rfl) hspelled]

end TelemetryTestbed.Lib.Csv
