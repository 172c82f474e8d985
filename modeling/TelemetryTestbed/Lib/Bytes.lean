import Mathlib.Data.List.Basic

/-!
# Byte strings and the C string functions

Texts are lists of bytes. A C string held in a buffer is what stands before the
first NUL (`cstr`), and a `char *` into a string is the part of the string from
that position on, so the searching functions answer suffixes.

Positions are not pointers: a function of C that answers a pointer into its argument answers
the suffix here, and NULL is `none`. The texts of a model are written as Lean strings and
taken apart into bytes by `ascii`; every one of them is ASCII, so bytes and characters are the
same.
-/

namespace TelemetryTestbed.Lib

abbrev Bytes := List UInt8

/-- The bytes of an ASCII literal. -/
def ascii (s : String) : Bytes := s.toByteArray.data.toList

/-- A property of the bytes of a text that computes. -/
theorem forall_mem_of_all {p : UInt8 → Prop} [DecidablePred p] {t : Bytes}
    (h : t.all (fun b => decide (p b)) = true) : ∀ b ∈ t, p b := fun b hb =>
  of_decide_eq_true (List.all_eq_true.mp h b hb)

/-- What a C function that expects a string sees of a buffer. -/
def cstr (b : Bytes) : Bytes := b.takeWhile (· ≠ 0)

theorem zero_notMem_cstr (b : Bytes) : (0 : UInt8) ∉ cstr b := by
  intro h
  have hall : (cstr b).all (fun x => decide (x ≠ 0)) = true := List.all_takeWhile
  exact of_decide_eq_true (List.all_eq_true.mp hall 0 h) rfl

theorem cstr_append {s : Bytes} (h : (0 : UInt8) ∉ s) (x : Bytes) :
    cstr (s ++ x) = s ++ cstr x := by
  unfold cstr
  rw [List.takeWhile_append_of_pos]
  intro b hb
  exact decide_eq_true fun h0 => h (h0 ▸ hb)

/-- A text without a NUL is its own string. -/
theorem cstr_eq_self {s : Bytes} (h : (0 : UInt8) ∉ s) : cstr s = s := by
  have := cstr_append h []
  rwa [List.append_nil, show cstr [] = [] from rfl, List.append_nil] at this

/-- `strstr`: the string from the first occurrence of the needle on. -/
def strstr : Bytes → Bytes → Option Bytes
  | [], needle => if needle = [] then some [] else none
  | b :: rest, needle =>
    if needle.isPrefixOf (b :: rest) then some (b :: rest) else strstr rest needle

/-- `strchr`: the string from the first occurrence of the byte on. -/
def strchr : Bytes → UInt8 → Option Bytes
  | [], _ => none
  | b :: rest, c => if b = c then some (b :: rest) else strchr rest c

/-- `snprintf(dst, cap, "%s", text)`: the string `dst` holds afterwards. -/
def snprintf (cap : Nat) (text : Bytes) : Bytes := text.take (cap - 1)

/-- `memcpy(&dst[i], src, n)` for the `n` bytes of `src`. -/
def memcpyAt (dst : Bytes) (i : Nat) (src : Bytes) : Bytes :=
  dst.take i ++ src ++ dst.drop (i + src.length)

/-- `tolower` of the C locale. -/
def tolower (b : UInt8) : UInt8 := if 65 ≤ b ∧ b ≤ 90 then b + 32 else b

def isdigit (b : UInt8) : Bool := 48 ≤ b && b ≤ 57

/-- `isspace` of the C locale. -/
def isspace (b : UInt8) : Bool := b = 32 || (9 ≤ b && b ≤ 13)

end TelemetryTestbed.Lib
