import TelemetryTestbed.Lib.Printf

/-!
# The string buffer of the reader

`strbuf_t` and its operations, over what the allocator answers. The bytes of the
buffer and the NUL behind them always fit its capacity, which is a field of the
buffer, so `sb_append` has to have reserved the room it writes to. Lengths and
capacities are far from the limits of `int` and `size_t`, because a row of SQLite
has at most 10^9 bytes.

The model with the block and the integer types is in `StrMem`; this one has the text alone and
is what the query is modelled over. An operation that fails gives the buffer back as it was.
-/

namespace TelemetryTestbed.Persistence

open TelemetryTestbed.Lib

/-- What the allocator answers to the calls to come, whether each of them succeeds.
Those after the last one succeed. -/
abbrev Answers := List Bool

/-- The answer to the next `malloc`, `realloc` or `calloc`. -/
def Answers.next : Answers → Bool × Answers
  | [] => (true, [])
  | a :: as => (a, as)

/-- `strbuf_t`: `text` are the `len` bytes of `buf`, and where there is a buffer there is room
for the NUL behind them. -/
structure StrBuf where
  text : Bytes
  cap : Nat
  room : text.length < cap ∨ text = [] ∧ cap = 0

def StrBuf.empty : StrBuf := ⟨[], 0, .inr ⟨rfl, rfl⟩⟩

/-- `while(ncap < need) ncap *= 2`; the first argument bounds the rounds. -/
def doubled : Nat → Nat → Nat → Nat
  | 0, ncap, _ => ncap
  | n + 1, ncap, need => if ncap < need then doubled n (ncap * 2) need else ncap

theorem le_doubled {n ncap need : Nat} (hpos : 0 < ncap) (h : need ≤ ncap + n) :
    need ≤ doubled n ncap need := by
  induction n generalizing ncap with
  | zero => exact h
  | succ n ih =>
    simp only [doubled]
    split
    · apply ih
      · omega
      · omega
    · next hle => exact Nat.le_of_not_lt hle

/-- The capacity `sb_reserve` asks for. -/
def StrBuf.grown (sb : StrBuf) (extra : Nat) : Nat :=
  let need := sb.text.length + extra + 1
  doubled need (if sb.cap = 0 then 1024 else sb.cap) need

theorem StrBuf.le_grown (sb : StrBuf) (extra : Nat) :
    sb.text.length + extra + 1 ≤ sb.grown extra := by
  apply le_doubled
  · split <;> omega
  · exact Nat.le_add_left _ _

/-- `sb_reserve`: the capacity afterwards, or `none` for -1. -/
def sbReserve (sb : StrBuf) (extra : Nat) (as : Answers) :
    Option { cap : Nat // sb.text.length + extra + 1 ≤ cap } × Answers :=
  if h : sb.text.length + extra + 1 ≤ sb.cap then (some ⟨sb.cap, h⟩, as)
  else if as.next.1 then (some ⟨sb.grown extra, sb.le_grown extra⟩, as.next.2)
  else (none, as.next.2)

/-- What a call that appends leaves behind: its success, the buffer, and the answers of the
allocator not used yet. -/
structure Appended where
  ok : Bool
  sb : StrBuf
  rest : Answers

/-- The bytes of `text` are copied behind those of the buffer, where there is room. -/
def sbCopy (sb : StrBuf) (text : Bytes) (as : Answers) : Appended :=
  match sbReserve sb text.length as with
  | (none, as) => ⟨false, sb, as⟩
  | (some cap, as) =>
    ⟨true, ⟨sb.text ++ text, cap.1, .inl (by rw [List.length_append]; exact cap.2)⟩, as⟩

/-- `sb_append` for a C string. -/
def sbAppend (sb : StrBuf) (s : Bytes) (as : Answers) : Appended := sbCopy sb (cstr s) as

/-- `sb_appendf`: through `tmp` where the text fits it, else through a buffer of its own. -/
def sbAppendf (sb : StrBuf) (fmt : Bytes) (args : List CArg) (as : Answers) : Appended :=
  match cformat fmt args with
  | none => ⟨false, sb, as⟩
  | some text =>
    if text.length < 512 then sbCopy sb text as
    else if as.next.1 then sbAppend sb text as.next.2
    else ⟨false, sb, as.next.2⟩

end TelemetryTestbed.Persistence
