import TelemetryTestbed.Lib.Bytes

/-!
# Regular expressions with captures

Expressions of Python's `re` on ASCII text, and the match a backtracking matcher
finds: alternatives in their order, a repetition as often as it goes at first. `run`
takes what comes behind the expression as a continuation, and answers what that makes
of the first match it accepts.

The matcher is the specification of the order in which captures are found, so it is written
with the backtracking in it and not as a language. Bytes are characters, and `\b` looks at the
byte before and the byte behind the cursor. A repetition is bounded by the text that is left,
so the matcher ends.
-/

namespace TelemetryTestbed.Lib

/-- An expression over bytes, with groups that have a name. -/
inductive Regex
  | eps
  | byte (p : UInt8 → Bool)
  /-- `\b` -/
  | boundary
  /-- `^` -/
  | start
  /-- `$` -/
  | stop
  | cat (r s : Regex)
  | alt (r s : Regex)
  /-- `[..]+` -/
  | many (p : UInt8 → Bool)
  | group (name : Bytes) (r : Regex)

namespace Regex

/-- A position in a text: the byte before it, and the text behind it. -/
structure Cursor where
  prev : Option UInt8
  rest : Bytes

/-- What the groups have matched, the last one first. -/
abbrev Captures := List (Bytes × Bytes)

/-- `\w` -/
def isWord (b : UInt8) : Bool :=
  isdigit b || (65 ≤ b && b ≤ 90) || (97 ≤ b && b ≤ 122) || b = 95

/-- A word begins or ends here. -/
def Cursor.atBoundary (c : Cursor) : Bool := c.prev.any isWord != c.rest.head?.any isWord

variable {α : Type}

/-- A repetition: all it can have first, then less. -/
def manyFrom (p : UInt8 → Bool) (k : Cursor → Option α) : Bytes → Option α
  | [] => none
  | b :: r => if p b then (manyFrom p k r).or (k ⟨some b, r⟩) else none

def run : Regex → Cursor → Captures → (Cursor → Captures → Option α) → Option α
  | eps, c, caps, k => k c caps
  | byte p, c, caps, k =>
    match c.rest with
    | [] => none
    | b :: r => if p b then k ⟨some b, r⟩ caps else none
  | boundary, c, caps, k => if c.atBoundary then k c caps else none
  | start, c, caps, k => if c.prev = none then k c caps else none
  | stop, c, caps, k => if c.rest = [] ∨ c.rest = [10] then k c caps else none
  | cat r s, c, caps, k => r.run c caps fun c caps => s.run c caps k
  | alt r s, c, caps, k => (r.run c caps k).or (s.run c caps k)
  | many p, c, caps, k => manyFrom p (fun c => k c caps) c.rest
  | group name r, c, caps, k =>
    r.run c caps fun c' caps =>
      k c' ((name, c.rest.take (c.rest.length - c'.rest.length)) :: caps)

/-- `re.search` from a position on. -/
def searchFrom (r : Regex) : Option UInt8 → Bytes → Option Captures
  | prev, [] => r.run ⟨prev, []⟩ [] fun _ caps => some caps
  | prev, b :: text =>
    (r.run ⟨prev, b :: text⟩ [] fun _ caps => some caps).or (searchFrom r (some b) text)

/-- `re.search` -/
def search (r : Regex) (text : Bytes) : Option Captures := r.searchFrom none text

/-- `re.match` -/
def matchStart (r : Regex) (text : Bytes) : Option Captures :=
  r.run ⟨none, text⟩ [] fun _ caps => some caps

/-- `re.sub` of an expression that begins with `^` by nothing. -/
def removeStart (r : Regex) (text : Bytes) : Bytes :=
  (r.run ⟨none, text⟩ [] fun c _ => some c.rest).getD text

/-- What a group has matched. -/
def Captures.get? (caps : Captures) (name : Bytes) : Option Bytes :=
  (caps.find? fun m => m.1 = name).map Prod.snd

/-- A text as it stands; with `re.IGNORECASE` one takes the bytes up to their case. -/
def lit (eq : UInt8 → UInt8 → Bool) : Bytes → Regex
  | [] => eps
  | b :: s => cat (byte (eq b)) (lit eq s)

/-- `r?` -/
def optional (r : Regex) : Regex := alt r eps

/-- Equal up to the case of letters. -/
def sameLetter (a b : UInt8) : Bool := tolower a = tolower b

/-! ## One match -/

variable {p : UInt8 → Bool} {prev : Option UInt8} {rest text : Bytes} {caps : Captures}
  {k : Cursor → Captures → Option α} {x : α} {b : UInt8}

/-- The byte in front of the text behind `s`. -/
def last : Option UInt8 → Bytes → Option UInt8
  | prev, [] => prev
  | _, b :: s => last (some b) s

theorem last_of_ne_nil (prev : Option UInt8) {s : Bytes} (h : s ≠ []) :
    ∃ b ∈ s, last prev s = some b := by
  induction s generalizing prev with
  | nil => exact absurd rfl h
  | cons b s ih =>
    cases s with
    | nil => exact ⟨b, List.mem_cons_self, rfl⟩
    | cons c s =>
      obtain ⟨d, hd, hlast⟩ := ih (some b) (List.cons_ne_nil c s)
      exact ⟨d, List.mem_cons_of_mem b hd, hlast⟩

@[simp] theorem run_eps (c : Cursor) : (eps : Regex).run c caps k = k c caps := rfl

@[simp] theorem run_cat (r s : Regex) (c : Cursor) :
    (cat r s).run c caps k = r.run c caps fun c caps => s.run c caps k := rfl

@[simp] theorem run_start : (start : Regex).run ⟨none, text⟩ caps k = k ⟨none, text⟩ caps := rfl

@[simp] theorem run_group (name : Bytes) (r : Regex) (c : Cursor) :
    (group name r).run c caps k = r.run c caps fun c' caps =>
      k c' ((name, c.rest.take (c.rest.length - c'.rest.length)) :: caps) := rfl

theorem run_byte_pos (h : p b = true) :
    (byte p).run ⟨prev, b :: rest⟩ caps k = k ⟨some b, rest⟩ caps := if_pos h

theorem run_byte_neg (h : ∀ b, text.head? = some b → p b = false) :
    (byte p).run ⟨prev, text⟩ caps k = none := by
  cases text with
  | nil => rfl
  | cons b rest =>
    have hb := h b rfl
    exact if_neg (by rw [hb]; exact Bool.false_ne_true)

/-- The text is there. -/
theorem run_lit {eq : UInt8 → UInt8 → Bool} (heq : ∀ b, eq b b = true) (s : Bytes) :
    (lit eq s).run ⟨prev, s ++ rest⟩ caps k = k ⟨last prev s, rest⟩ caps := by
  induction s generalizing prev with
  | nil => rfl
  | cons b s ih =>
    rw [lit, run_cat, List.cons_append, run_byte_pos (heq b), ih]
    rfl

theorem run_lit_neg {eq : UInt8 → UInt8 → Bool} (h : ∀ c, text.head? = some c → eq b c = false)
    (s : Bytes) : (lit eq (b :: s)).run ⟨prev, text⟩ caps k = none := by
  rw [lit, run_cat, run_byte_neg h]

theorem run_alt_of_some {r s : Regex} {c : Cursor} (h : r.run c caps k = some x) :
    (alt r s).run c caps k = some x := by
  rw [run, h, Option.some_or]

theorem run_alt_of_none {r s : Regex} {c : Cursor} (h : r.run c caps k = none) :
    (alt r s).run c caps k = s.run c caps k := by
  rw [run, h, Option.none_or]

theorem run_boundary_pos {c : Cursor} (h : c.atBoundary = true) :
    (boundary : Regex).run c caps k = k c caps := if_pos h

theorem run_boundary_neg {c : Cursor} (h : c.atBoundary = false) :
    (boundary : Regex).run c caps k = none :=
  if_neg (by rw [h]; exact Bool.false_ne_true)

/-- A repetition takes all there is, if the rest of the expression goes on from there. -/
theorem run_many {s : Bytes} (hs : s ≠ []) (hall : ∀ b ∈ s, p b = true)
    (hrest : ∀ b, rest.head? = some b → p b = false) (hk : k ⟨last prev s, rest⟩ caps = some x) :
    (many p).run ⟨prev, s ++ rest⟩ caps k = some x := by
  rw [run]
  dsimp only
  induction s generalizing prev with
  | nil => exact absurd rfl hs
  | cons b s ih =>
    rw [List.cons_append, manyFrom, if_pos (hall b List.mem_cons_self)]
    cases s with
    | nil =>
      have hnone : manyFrom p (fun c => k c caps) rest = none := by
        cases rest with
        | nil => rfl
        | cons c rest =>
          have hc := hrest c rfl
          rw [manyFrom, hc, if_neg Bool.false_ne_true]
      rw [List.nil_append, hnone, Option.none_or]
      exact hk
    | cons c s =>
      have htail := @ih (some b) (List.cons_ne_nil c s)
        (fun d hd => hall d (List.mem_cons_of_mem b hd)) hk
      rw [htail, Option.some_or]

theorem run_many_neg (h : ∀ b, text.head? = some b → p b = false) :
    (many p).run ⟨prev, text⟩ caps k = none := by
  rw [run]
  dsimp only
  cases text with
  | nil => rfl
  | cons b rest =>
    have hb := h b rfl
    rw [manyFrom, hb, if_neg Bool.false_ne_true]

/-- A group of a class keeps all the repetition takes. -/
theorem run_group_many {name s : Bytes} (hs : s ≠ []) (hall : ∀ b ∈ s, p b = true)
    (hrest : ∀ b, rest.head? = some b → p b = false)
    (hk : k ⟨last prev s, rest⟩ ((name, s) :: caps) = some x) :
    (group name (many p)).run ⟨prev, s ++ rest⟩ caps k = some x := by
  rw [run]
  apply run_many hs hall hrest
  dsimp only
  rw [List.length_append, Nat.add_sub_cancel, List.take_left]
  exact hk

theorem run_group_neg {name : Bytes} {r : Regex} {c : Cursor}
    (h : ∀ k : Cursor → Captures → Option α, r.run c caps k = none) :
    (group name r).run c caps k = none := h _

/-! ## Searching -/

theorem searchFrom_of_some {r : Regex} {found : Captures}
    (h : r.run ⟨prev, text⟩ [] (fun _ caps => some caps) = some found) :
    r.searchFrom prev text = some found := by
  cases text with
  | nil => exact h
  | cons b text => rw [searchFrom, h, Option.some_or]

end Regex

end TelemetryTestbed.Lib
