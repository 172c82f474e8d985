import Mathlib.Algebra.Order.Field.Rat
import Mathlib.Data.List.DropRight
import TelemetryTestbed.Lib.DoubleArith

/-!
# Python's functions on texts

`strip`, `split` and `float` on ASCII texts. A numeral as `printf` writes it is read
back exactly: the numbers are rational, as in exact decimal arithmetic.

`float` reads digits, a point and a sign here; exponents, underscores, `inf` and `nan`, which
Python reads too, do not occur in the texts that the programs write. A text it does not read
is `none`, where Python raises `ValueError`.
-/

namespace TelemetryTestbed.Lib

/-- `str.isspace` -/
def isPySpace (b : UInt8) : Bool := isspace b || (28 ≤ b && b ≤ 31)

/-- `str.strip` of the bytes of a kind. -/
def strip (p : UInt8 → Bool) (s : Bytes) : Bytes := (s.dropWhile p).rdropWhile p

/-- The words of a text, the first one begun already. -/
def wordsFrom : Bytes → Bytes → List Bytes
  | word, [] => if word = [] then [] else [word]
  | word, b :: s =>
    if isPySpace b then if word = [] then wordsFrom [] s else word :: wordsFrom [] s
    else wordsFrom (word ++ [b]) s

/-- `str.split()` -/
def words (s : Bytes) : List Bytes := wordsFrom [] s

/-- `str.upper` -/
def toupper (b : UInt8) : UInt8 := if 97 ≤ b ∧ b ≤ 122 then b - 32 else b

/-- `float` of digits with at most one dot. -/
def unsignedFloat (s : Bytes) : Option ℚ :=
  let whole := s.takeWhile isdigit
  match s.dropWhile isdigit with
  | [] => if whole = [] then none else some (ofDigits10 whole)
  | c :: frac =>
    if c = 46 ∧ frac.all isdigit ∧ (whole ≠ [] ∨ frac ≠ []) then
      some (ofDigits10 (whole ++ frac) / 10 ^ frac.length)
    else none

/-- `float` of such a numeral behind an optional sign; `none` is the `ValueError`. -/
def pyFloat : Bytes → Option ℚ
  | [] => none
  | c :: s =>
    if c = 43 then unsignedFloat s
    else if c = 45 then (unsignedFloat s).map fun x => -x
    else unsignedFloat (c :: s)

/-! ## Numerals are read back -/

variable {s t w : Bytes} {b : UInt8} {p : UInt8 → Bool}

theorem pyFloat_of_isdigit (h : isdigit b = true) (s : Bytes) :
    pyFloat (b :: s) = unsignedFloat (b :: s) := by
  have hplus : b ≠ 43 := by
    rintro rfl
    cases h
  have hminus : b ≠ 45 := by
    rintro rfl
    cases h
  rw [pyFloat, if_neg hplus, if_neg hminus]

theorem pyFloat_digits (hne : s ≠ []) (h : ∀ b ∈ s, isdigit b = true) :
    pyFloat s = some (ofDigits10 s : ℚ) := by
  obtain ⟨b, s, rfl⟩ := List.exists_cons_of_ne_nil hne
  rw [pyFloat_of_isdigit (h b List.mem_cons_self), unsignedFloat,
    List.takeWhile_eq_self_iff.mpr h, List.dropWhile_eq_nil_iff.mpr h, if_neg hne]

theorem pyFloat_point (hne : s ≠ []) (h : ∀ b ∈ s, isdigit b = true)
    (ht : ∀ b ∈ t, isdigit b = true) :
    pyFloat (s ++ 46 :: t) = some (ofDigits10 (s ++ t) / 10 ^ t.length : ℚ) := by
  obtain ⟨b, s, rfl⟩ := List.exists_cons_of_ne_nil hne
  have htake : ((b :: s) ++ 46 :: t).takeWhile isdigit = b :: s := by
    rw [List.takeWhile_append_of_pos h, List.takeWhile_cons_of_neg (by decide), List.append_nil]
  have hdrop : ((b :: s) ++ 46 :: t).dropWhile isdigit = 46 :: t := by
    rw [List.dropWhile_append_of_pos h, List.dropWhile_cons_of_neg (by decide)]
  rw [List.cons_append] at htake hdrop ⊢
  rw [pyFloat_of_isdigit (h b List.mem_cons_self), unsignedFloat, htake, hdrop]
  exact if_pos ⟨rfl, List.all_eq_true.mpr ht, Or.inl hne⟩

theorem pyFloat_decimalNat (n : Nat) : pyFloat (decimalNat n) = some (n : ℚ) := by
  rw [pyFloat_digits (decimalNat_ne_nil n) fun b hb => isdigit_decimalNat hb,
    ofDigits10_decimalNat]

theorem pyFloat_fixedPoint (k n : Nat) :
    pyFloat (Double.fixedPoint k n) = some (n / 10 ^ k : ℚ) := by
  rw [Double.fixedPoint, pyFloat_point (decimalNat_ne_nil _) (fun b hb => isdigit_decimalNat hb)
    fun b hb => isdigit_fixedDigits hb, ofDigits10_append_fixedDigits, ofDigits10_decimalNat,
    length_fixedDigits, Nat.mod_mod, Nat.div_add_mod']

/-! ## Words -/

theorem strip_eq_self (h : ∀ b ∈ s, p b = false) : strip p s = s := by
  have hdrop : s.dropWhile p = s := by
    cases s with
    | nil => rfl
    | cons b s =>
      apply List.dropWhile_cons_of_neg
      rw [h b List.mem_cons_self]
      exact Bool.false_ne_true
  rw [strip, hdrop, List.rdropWhile_eq_self_iff]
  intro hne
  rw [h _ (List.getLast_mem hne)]
  exact Bool.false_ne_true

theorem wordsFrom_append (word : Bytes) (h : ∀ b ∈ w, isPySpace b = false) (s : Bytes) :
    wordsFrom word (w ++ s) = wordsFrom (word ++ w) s := by
  induction w generalizing word with
  | nil => rw [List.nil_append, List.append_nil]
  | cons b w ih =>
    have hb := h b List.mem_cons_self
    rw [List.cons_append, wordsFrom, hb, if_neg Bool.false_ne_true,
      ih _ fun c hc => h c (List.mem_cons_of_mem b hc), List.append_assoc, List.singleton_append]

/-- A word in front of a space. -/
theorem words_append (hne : w ≠ []) (h : ∀ b ∈ w, isPySpace b = false)
    (hb : isPySpace b = true) (s : Bytes) : words (w ++ b :: s) = w :: words s := by
  rw [words, wordsFrom_append [] h, List.nil_append, wordsFrom, if_pos hb, if_neg hne]
  rfl

theorem wordsFrom_concat (word : Bytes) (hb : isPySpace b = true) :
    wordsFrom word (s ++ [b]) = wordsFrom word s := by
  induction s generalizing word with
  | nil =>
    simp only [List.nil_append, wordsFrom, if_pos hb, if_true]
  | cons c s ih =>
    rw [List.cons_append, wordsFrom, wordsFrom, ih, ih]

/-- To split a text is to split it without the spaces around it. -/
theorem words_strip (s : Bytes) : words (strip isPySpace s) = words s := by
  have hright : ∀ s : Bytes, words (s.rdropWhile isPySpace) = words s := by
    intro s
    induction s using List.reverseRecOn with
    | nil => rfl
    | append_singleton s b ih =>
      by_cases hb : isPySpace b = true
      · rw [List.rdropWhile_concat_pos _ _ _ hb, ih, words, words, wordsFrom_concat [] hb]
      · rw [List.rdropWhile_concat_neg _ _ _ hb]
  have hleft : words (s.dropWhile isPySpace) = words s := by
    induction s with
    | nil => rfl
    | cons b s ih =>
      by_cases hb : isPySpace b = true
      · rw [List.dropWhile_cons_of_pos hb, ih, words, words, wordsFrom, if_pos hb, if_pos rfl]
      · rw [List.dropWhile_cons_of_neg hb]
  rw [strip, hright, hleft]

end TelemetryTestbed.Lib
