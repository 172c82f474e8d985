import TelemetryTestbed.Lib.Search

/-!
# Lines of a request head

The lines of an HTTP head: those that a CRLF ends, up to the first empty one. The
lines do not depend on what comes after the empty line (`headerLines_append`), and a
search line by line that advances by `strstr` goes through exactly them
(`linesFrom_of_strstr`).

An empty line is what ends a head, so a line is never empty, and no line has a CRLF in it; a
lone CR or LF is a byte like any other. What stands behind the last CRLF, without one of its
own, is not a line.
-/

namespace TelemetryTestbed.Lib

/-! ## Lines -/

/-- The lines of a head, where `cur` is the part of the current line that has been read. -/
def linesFrom : Bytes → Bytes → List Bytes
  | _, [] => []
  | cur, 13 :: 10 :: rest => if cur = [] then [] else cur :: linesFrom [] rest
  | cur, b :: rest => linesFrom (cur ++ [b]) rest

/-- The lines before the first empty line. What no CRLF ends is not a line. -/
def headerLines (head : Bytes) : List Bytes := linesFrom [] head

theorem linesFrom_step {b : UInt8} {rest : Bytes} (cur : Bytes)
    (h : ¬ (b = 13 ∧ rest.head? = some 10)) :
    linesFrom cur (b :: rest) = linesFrom (cur ++ [b]) rest := by
  apply linesFrom.eq_3
  rintro r rfl rfl
  exact h ⟨rfl, rfl⟩

/-- One line of the head, found by `strstr`. -/
theorem linesFrom_of_strstr {p e : Bytes} (cur : Bytes) (h : strstr p [13, 10] = some e) :
    linesFrom cur p =
      if cur ++ p.take (p.length - e.length) = [] then []
      else (cur ++ p.take (p.length - e.length)) :: linesFrom [] (e.drop 2) := by
  fun_induction linesFrom cur p with
  | case1 cur => cases h
  | case2 rest =>
    have he : e = 13 :: 10 :: rest := by simpa [strstr] using h.symm
    simp [he]
  | case3 cur rest hcur =>
    have he : e = 13 :: 10 :: rest := by simpa [strstr] using h.symm
    simp [he, hcur]
  | case4 cur b rest hb ih =>
    have hne : ¬ ([13, 10] : Bytes).isPrefixOf (b :: rest) = true := by
      rw [List.isPrefixOf_iff_prefix]
      rintro ⟨t, ht⟩
      simp only [List.cons_append, List.nil_append, List.cons.injEq] at ht
      obtain ⟨rfl, rfl⟩ := ht
      exact hb t rfl rfl
    rw [strstr, if_neg hne] at h
    obtain ⟨-, front, hfront⟩ := strstr_split h
    have hlen : (b :: rest).length - e.length = (rest.length - e.length) + 1 := by
      have := congrArg List.length hfront
      rw [List.length_append] at this
      rw [List.length_cons]
      omega
    rw [ih h, hlen, List.take_succ_cons, List.append_assoc]
    rfl

theorem linesFrom_of_none {p : Bytes} (cur : Bytes) (h : strstr p [13, 10] = none) :
    linesFrom cur p = [] := by
  fun_induction linesFrom cur p with
  | case1 cur => rfl
  | case2 rest => rfl
  | case3 cur rest hcur => simp [strstr] at h
  | case4 cur b rest hb ih =>
    simp only [strstr] at h
    split at h
    · cases h
    · exact ih h

/-- The lines do not depend on what follows the empty line. -/
theorem linesFrom_append (cur u x : Bytes) :
    linesFrom cur (u ++ [13, 10, 13, 10] ++ x) = linesFrom cur (u ++ [13, 10, 13, 10]) := by
  fun_induction linesFrom cur u with
  | case1 cur =>
    show linesFrom cur (13 :: 10 :: 13 :: 10 :: x) = linesFrom cur [13, 10, 13, 10]
    simp [linesFrom]
  | case2 rest => simp [linesFrom]
  | case3 cur rest hcur ih => simpa [linesFrom, hcur] using ih
  | case4 cur b rest hb ih =>
    have hb' : ¬ (b = 13 ∧ ∃ r, rest = 10 :: r) := fun h => hb h.2.choose h.1 h.2.choose_spec
    have hhead : ∀ y, ¬ (b = 13 ∧ (rest ++ [13, 10, 13, 10] ++ y).head? = some 10) := by
      rintro y ⟨rfl, hy⟩
      cases rest with
      | nil => simp at hy
      | cons c rest => exact hb' ⟨rfl, rest, by simpa using hy⟩
    have hnil := hhead []
    rw [List.append_nil] at hnil
    rw [List.cons_append, List.cons_append, linesFrom_step cur (hhead x), ih,
      linesFrom_step cur hnil]

theorem headerLines_append (u x : Bytes) :
    headerLines (u ++ [13, 10, 13, 10] ++ x) = headerLines (u ++ [13, 10, 13, 10]) :=
  linesFrom_append [] u x

end TelemetryTestbed.Lib
