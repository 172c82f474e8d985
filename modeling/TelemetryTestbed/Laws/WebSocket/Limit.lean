import TelemetryTestbed.Laws.Persistence.HistoryReply
import TelemetryTestbed.Lib.Search
import TelemetryTestbed.WebSocket.Limit

/-!
# The limit of a history request

The digit loop of `json_find_int` leaves early once the value is past 1000000. What
it has by then is past 5000 as well, so the clamps behind it make the same limit of
it as of the number in full. No step leaves the range of its type, whatever the text.

The loop invariant is that the value is that of the digits so far, or both are past the bound.
The multiplication and the addition are checked at each digit against the range of `long`,
which the bound keeps far away, and the conversion to `int` against the value it is left with.
-/

namespace TelemetryTestbed.WebSocket

open TelemetryTestbed.Lib Persistence

/-! ## What a number is worth -/

/-- The number of rows a request for `z` rows is for. -/
def rowLimit (z : Int) : Nat := if z ≤ 0 then 300 else if 5000 < z then 5000 else z.toNat

/-- The integer a text starts with, behind white space. -/
def readInteger (p : Bytes) : Option Int :=
  let p := p.dropWhile isspace
  let (sign, p) := if p.head? = some 45 then ((-1 : Int), p.drop 1) else (1, p)
  if p.takeWhile isdigit = [] then none else some (sign * ofDigits10 (p.takeWhile isdigit))

/-- What is behind the first colon after the key. -/
def behindColon (json key : Bytes) : Option Bytes :=
  ((strstr json key).bind fun p => strchr p 58).map (List.drop 1)

/-- The limit that is bound for the text of a request. -/
def requestLimit (text : Bytes) : Nat :=
  historyLimit (Int32.ofInt (jsonFindInt text lastKey 300))

/-! ## The digit loop -/

/-- What the loop has for the number `n`: `n`, or another number that is large as well. -/
structure Kept (n : Nat) (v : Int) : Prop where
  nonneg : 0 ≤ v
  bound : v ≤ 10000009
  exact : n ≤ 1000000 → v = n
  large : 1000000 < n → 1000000 < v

theorem le_foldl_digits (k : Nat) (ds : Bytes) :
    k ≤ ds.foldl (fun n d => 10 * n + (d.toNat - 48)) k := by
  induction ds generalizing k with
  | nil => exact Nat.le_refl k
  | cons d ds ih =>
    have hstep := ih (10 * k + (d.toNat - 48))
    rw [List.foldl_cons]
    omega

theorem digitLoop_digit {b : UInt8} (hb : isdigit b = true) (v : Int) (rest : Bytes) :
    digitLoop v (b :: rest) = if 1000000 < v * 10 + (b.toNat - 48 : Nat)
      then v * 10 + (b.toNat - 48 : Nat) else digitLoop (v * 10 + (b.toNat - 48 : Nat)) rest :=
  if_pos hb

theorem digitLoop_stop {b : UInt8} (hb : ¬ isdigit b = true) (v : Int) (rest : Bytes) :
    digitLoop v (b :: rest) = v := if_neg hb

theorem digitLoop_kept {k : Nat} (hk : k ≤ 1000000) (p : Bytes) :
    Kept ((p.takeWhile isdigit).foldl (fun n d => 10 * n + (d.toNat - 48)) k)
      (digitLoop k p) := by
  have hsame : Kept k k := ⟨by omega, by omega, fun _ => rfl, fun h => by omega⟩
  induction p generalizing k with
  | nil => exact hsame
  | cons b p ih =>
    by_cases hb : isdigit b = true
    · obtain ⟨hlow, hhigh⟩ := isdigit_iff.mp hb
      have hnext : (k : Int) * 10 + (b.toNat - 48 : Nat) = (10 * k + (b.toNat - 48) : Nat) := by
        omega
      have hgrows := le_foldl_digits (10 * k + (b.toNat - 48)) (p.takeWhile isdigit)
      rw [digitLoop_digit hb, List.takeWhile_cons_of_pos hb, List.foldl_cons, hnext]
      split
      · exact ⟨by omega, by omega, fun h => by omega, fun _ => by assumption⟩
      · exact ih (by omega) ⟨by omega, by omega, fun _ => rfl, fun h => by omega⟩
    · rw [digitLoop_stop hb, List.takeWhile_cons_of_neg hb]
      exact hsame

/-- No step of the loop leaves the range of its type. -/
theorem digitLoopLong_eq {v : Int} (h0 : 0 ≤ v) (h1 : v ≤ 1000000) (p : Bytes) :
    digitLoopLong v p = some (digitLoop v p) := by
  induction p generalizing v with
  | nil => rfl
  | cons b p ih =>
    rw [digitLoopLong]
    by_cases hb : isdigit b = true
    · obtain ⟨hlow, hhigh⟩ := isdigit_iff.mp hb
      have hdigit : (b.toNat : Int) - 48 = (b.toNat - 48 : Nat) := by omega
      have hmul : long (v * 10) = some (v * 10) := if_pos (by omega)
      have hint : int ((b.toNat - 48 : Nat) : Int) = some ((b.toNat - 48 : Nat) : Int) :=
        if_pos (by omega)
      have hadd : long (v * 10 + (b.toNat - 48 : Nat)) = some (v * 10 + (b.toNat - 48 : Nat)) :=
        if_pos (by omega)
      rw [digitLoop_digit hb, if_pos hb, hmul, Option.bind_some, hdigit, hint, Option.bind_some,
        hadd, Option.bind_some]
      split
      · rfl
      · exact ih (by omega) (by omega)
    · rw [digitLoop_stop hb, if_neg hb]

/-! ## `json_find_int` -/

/-- No operation of `json_find_int` overflows, and the conversion to `int` keeps the value. -/
theorem jsonFindIntTyped_eq (json key : Bytes) (defv : Int) :
    jsonFindIntTyped json key defv = some (jsonFindInt json key defv) := by
  unfold jsonFindIntTyped jsonFindInt
  cases (strstr json key).bind fun p => strchr p 58 with
  | none => rfl
  | some p =>
    dsimp only
    generalize (p.drop 1).dropWhile isspace = p
    have hsign : ∀ sign : Int, sign = 1 ∨ sign = -1 → ∀ p : Bytes,
        (digitLoopLong 0 p).bind (fun v => (long (v * sign)).bind int) =
          some (sign * digitLoop 0 p) := by
      intro sign hs p
      obtain ⟨h0, hbound, -, -⟩ := digitLoop_kept (Nat.zero_le 1000000) p
      rw [Nat.cast_zero] at h0 hbound
      rw [digitLoopLong_eq (by omega) (by omega), Option.bind_some, Int.mul_comm]
      generalize digitLoop 0 p = v at h0 hbound
      have hlong : long (sign * v) = some (sign * v) := if_pos (by rcases hs with rfl | rfl <;> omega)
      have hint : int (sign * v) = some (sign * v) := if_pos (by rcases hs with rfl | rfl <;> omega)
      rw [hlong, Option.bind_some, hint]
    split
    · split
      · exact hsign _ (Or.inr rfl) _
      · rfl
    · split
      · exact hsign _ (Or.inl rfl) _
      · rfl

/-- The clamps of `db_reader_history_last_json`, on a value the conversion to `int` keeps. -/
theorem historyLimit_ofInt {v : Int} (h0 : -2 ^ 31 ≤ v) (h1 : v < 2 ^ 31) :
    historyLimit (Int32.ofInt v) = rowLimit v := by
  have hv : (Int32.ofInt v).toInt = v := Int32.toInt_ofInt_of_le h0 h1
  have hzero : (0 : Int32).toInt = 0 := rfl
  have hmax : (5000 : Int32).toInt = 5000 := rfl
  have hle : Int32.ofInt v ≤ 0 ↔ v ≤ 0 := by rw [Int32.le_iff_toInt_le, hv, hzero]
  have hlt : 5000 < Int32.ofInt v ↔ 5000 < v := by rw [Int32.lt_iff_toInt_lt, hv, hmax]
  by_cases hpos : v ≤ 0
  · rw [historyLimit_of_nonpos (hle.mpr hpos), rowLimit, if_pos hpos]
  · by_cases hlarge : 5000 < v
    · rw [historyLimit_of_large (hlt.mpr hlarge), rowLimit, if_neg hpos, if_pos hlarge]
    · have hbetween := historyLimit_of_between (mt hle.mp hpos) (mt hlt.mp hlarge)
      rw [hv] at hbetween
      rw [rowLimit, if_neg hpos, if_neg hlarge]
      omega

/-- What the loop leaves of a number is worth the same limit. -/
theorem Kept.rowLimit {n : Nat} {v sign : Int} (h : Kept n v) (hs : sign = 1 ∨ sign = -1) :
    rowLimit (sign * v) = rowLimit (sign * n) := by
  obtain ⟨h0, -, hexact, hlarge⟩ := h
  by_cases hn : n ≤ 1000000
  · rw [hexact hn]
  · have hv := hlarge (by omega)
    unfold WebSocket.rowLimit
    rcases hs with rfl | rfl
    · rw [if_neg (by omega), if_pos (by omega), if_neg (by omega), if_pos (by omega)]
    · rw [if_pos (by omega), if_pos (by omega)]

theorem head?_isdigit_iff (p : Bytes) :
    (p.head?.map isdigit).getD false = true ↔ p.takeWhile isdigit ≠ [] := by
  cases p with
  | nil => simp
  | cons b p =>
    by_cases hb : isdigit b = true <;> simp [hb]

/-- The limit of a request is what the integer behind the first colon behind the first
`"last"` is worth, or the default. -/
theorem requestLimit_eq (text : Bytes) :
    requestLimit text =
      (((behindColon text lastKey).bind readInteger).map rowLimit).getD 300 := by
  have hdefault : historyLimit (Int32.ofInt 300) = 300 := historyLimit_ofInt (by decide) (by decide)
  have hsign : ∀ sign : Int, sign = 1 ∨ sign = -1 → ∀ p : Bytes,
      historyLimit (Int32.ofInt
        (if (p.head?.map isdigit).getD false then sign * digitLoop 0 p else 300)) =
      ((if p.takeWhile isdigit = [] then none
        else some (sign * ofDigits10 (p.takeWhile isdigit))).map rowLimit).getD 300 := by
    intro sign hs p
    by_cases hp : p.takeWhile isdigit = []
    · rw [if_neg (fun h => (head?_isdigit_iff p).mp h hp), if_pos hp]
      exact hdefault
    · have hkept := digitLoop_kept (Nat.zero_le 1000000) p
      rw [Nat.cast_zero] at hkept
      rw [if_pos ((head?_isdigit_iff p).mpr hp), if_neg hp]
      have h0 := hkept.nonneg
      have hbound := hkept.bound
      rw [historyLimit_ofInt (by rcases hs with rfl | rfl <;> omega)
        (by rcases hs with rfl | rfl <;> omega)]
      exact hkept.rowLimit hs
  unfold requestLimit jsonFindInt behindColon
  cases (strstr text lastKey).bind fun p => strchr p 58 with
  | none => exact hdefault
  | some p =>
    simp only [Option.map_some, Option.bind_some, readInteger]
    generalize (p.drop 1).dropWhile isspace = p
    split
    · exact hsign _ (Or.inr rfl) _
    · exact hsign _ (Or.inl rfl) _

/-! ## Requests with a literal -/

/-- An integer literal, leading zeros allowed. -/
def intLiteral (negative : Bool) (digits : Bytes) : Bytes :=
  (if negative then [45] else []) ++ digits

def intLiteralValue (negative : Bool) (digits : Bytes) : Int :=
  if negative then -ofDigits10 digits else ofDigits10 digits

/-- The request of the page for `n` rows. -/
def uiRequest (n : Nat) : Bytes :=
  ascii "\x7b\"type\":\"history\",\"last\":" ++ decimalNat n ++ ascii "\x7d"

theorem takeWhile_isdigit_append {digits rest : Bytes} (hdigits : ∀ b ∈ digits, isdigit b = true)
    (hrest : ∀ b, rest.head? = some b → isdigit b = false) :
    (digits ++ rest).takeWhile isdigit = digits := by
  rw [List.takeWhile_append_of_pos hdigits]
  cases rest with
  | nil => rw [List.takeWhile_nil, List.append_nil]
  | cons b rest =>
    have hb : ¬ isdigit b = true := by rw [hrest b rfl]; exact Bool.false_ne_true
    rw [List.takeWhile_cons_of_neg hb, List.append_nil]

theorem head?_of_isdigit {digits rest : Bytes} (hdigits : ∀ b ∈ digits, isdigit b = true)
    (hne : digits ≠ []) : ∃ b, (digits ++ rest).head? = some b ∧ isdigit b = true := by
  obtain ⟨b, ds, rfl⟩ := List.exists_cons_of_ne_nil hne
  exact ⟨b, rfl, hdigits b List.mem_cons_self⟩

theorem isspace_of_isdigit {b : UInt8} (h : isdigit b = true) : isspace b = false := by
  obtain ⟨hlow, hhigh⟩ := isdigit_iff.mp h
  unfold isspace
  rw [Bool.or_eq_false_iff, Bool.and_eq_false_iff, decide_eq_false_iff_not,
    decide_eq_false_iff_not, decide_eq_false_iff_not, UInt8.le_iff_toNat_le,
    UInt8.le_iff_toNat_le]
  refine ⟨?_, Or.inr (by show ¬ b.toNat ≤ 13; omega)⟩
  rintro rfl
  exact absurd hlow (by decide)

theorem dropWhile_isspace_append {ws p : Bytes} (hws : ∀ b ∈ ws, isspace b = true)
    (hp : ∀ b, p.head? = some b → isspace b = false) : (ws ++ p).dropWhile isspace = p := by
  rw [List.dropWhile_append_of_pos hws]
  cases p with
  | nil => rfl
  | cons b p =>
    have hb : ¬ isspace b = true := by rw [hp b rfl]; exact Bool.false_ne_true
    rw [List.dropWhile_cons_of_neg hb]

theorem readInteger_literal {ws digits rest : Bytes} {negative : Bool}
    (hws : ∀ b ∈ ws, isspace b = true) (hdigits : ∀ b ∈ digits, isdigit b = true)
    (hne : digits ≠ []) (hrest : ∀ b, rest.head? = some b → isdigit b = false) :
    readInteger (ws ++ (intLiteral negative digits ++ rest)) =
      some (intLiteralValue negative digits) := by
  obtain ⟨b, hhead, hb⟩ := @head?_of_isdigit digits rest hdigits hne
  have htake := takeWhile_isdigit_append hdigits hrest
  cases negative with
  | true =>
    have hspace : ∀ c, (intLiteral true digits ++ rest).head? = some c → isspace c = false := by
      intro c hc
      cases hc
      decide
    have hdrop : (intLiteral true digits ++ rest).drop 1 = digits ++ rest := rfl
    have hminus : (intLiteral true digits ++ rest).head? = some 45 := rfl
    rw [readInteger, dropWhile_isspace_append hws hspace]
    simp only [if_pos hminus, hdrop, htake, if_neg hne]
    rw [intLiteralValue, if_pos rfl, Int.neg_one_mul]
  | false =>
    have hspace : ∀ c, (intLiteral false digits ++ rest).head? = some c → isspace c = false := by
      intro c hc
      cases hhead.symm.trans hc
      exact isspace_of_isdigit hb
    have hminus : ¬ (digits ++ rest).head? = some 45 := by
      intro h
      cases hhead.symm.trans h
      exact absurd hb (by decide)
    have hplain : intLiteral false digits ++ rest = digits ++ rest := rfl
    rw [readInteger, dropWhile_isspace_append hws hspace, hplain]
    simp only [if_neg hminus, htake, if_neg hne]
    rw [intLiteralValue, if_neg Bool.false_ne_true, Int.one_mul]

theorem behindColon_uiRequest (n : Nat) :
    behindColon (uiRequest n) lastKey = some (decimalNat n ++ ascii "\x7d") := by
  generalize hds : decimalNat n = ds
  unfold uiRequest
  rw [hds, List.append_assoc]
  rfl

/-- **Any literal gives the limit of the number it spells.** The text is any text in which the
first `"last"` is followed by a colon, white space and a literal of digits, as many as there
are, behind which no digit follows. `json_find_int` then reads a value within the ranges of its
`long` and of `int`, with no operation in between that would overflow, and the two clamps make
the same limit of it as of the exact number; the early exit of the loop does not show. The
requests that the page sends for 1 to 5000 rows get that many. -/
theorem limit_saturates :
    (∀ (text pre ws digits rest : Bytes) (negative : Bool),
      text = pre ++ (lastKey ++ 58 :: (ws ++ (intLiteral negative digits ++ rest))) →
      (∀ front back, text = front ++ back → lastKey <+: back → pre.length ≤ front.length) →
      (∀ b ∈ ws, isspace b = true) → (∀ b ∈ digits, isdigit b = true) → digits ≠ [] →
      (∀ b, rest.head? = some b → isdigit b = false) →
        jsonFindIntTyped text lastKey 300 = some (jsonFindInt text lastKey 300) ∧
        requestLimit text = rowLimit (intLiteralValue negative digits)) ∧
    (∀ n, 1 ≤ n → n ≤ 5000 → requestLimit (uiRequest n) = n) := by
  constructor
  · intro text pre ws digits rest negative htext hfirst hws hdigits hne hrest
    refine ⟨jsonFindIntTyped_eq text lastKey 300, ?_⟩
    have hfound : strstr text lastKey =
        some (lastKey ++ 58 :: (ws ++ (intLiteral negative digits ++ rest))) := by
      rw [htext] at hfirst ⊢
      exact strstr_of_first (List.prefix_append _ _) hfirst
    have hcolon : (58 : UInt8) ∉ lastKey := by decide
    have hbehind : behindColon text lastKey =
        some (ws ++ (intLiteral negative digits ++ rest)) := by
      rw [behindColon, hfound, Option.bind_some, strchr_append hcolon, Option.map_some]
      rfl
    rw [requestLimit_eq, hbehind, Option.bind_some, readInteger_literal hws hdigits hne hrest]
    rfl
  · intro n hlow hhigh
    have hread := @readInteger_literal [] (decimalNat n) (ascii "\x7d") false (by simp)
      (fun _ hb => isdigit_decimalNat hb) (decimalNat_ne_nil n)
      (fun b hb => by cases hb; rfl)
    have hvalue : intLiteralValue false (decimalNat n) = n := by
      rw [intLiteralValue, if_neg Bool.false_ne_true, ofDigits10_decimalNat]
    have hliteral : intLiteral false (decimalNat n) = decimalNat n := rfl
    rw [List.nil_append, hliteral, hvalue] at hread
    rw [requestLimit_eq, behindColon_uiRequest, Option.bind_some, hread, Option.map_some,
      Option.getD_some, rowLimit, if_neg (by omega), if_neg (by omega), Int.toNat_natCast]

/-- A negative number with a leading zero, and one that no `long` holds. -/
theorem limit_saturates_far :
    requestLimit (ascii "\x7b\"last\": -07\x7d") = 300 ∧
      requestLimit (ascii "\x7b\"last\":99999999999999999999\x7d") = 5000 := by
  have hfirst : ∀ (tail front back : Bytes), 123 :: (lastKey ++ tail) = front ++ back →
      lastKey <+: back → 1 ≤ front.length := by
    intro tail front back h hback
    cases front with
    | cons b front => exact Nat.le_add_left 1 _
    | nil =>
      rw [List.nil_append] at h
      obtain ⟨t, rfl⟩ := hback
      have hhead := (List.cons.inj h).1
      exact absurd hhead (by decide)
  constructor
  · have h := (limit_saturates.1 _ (ascii "\x7b") [32] (ascii "07") (ascii "\x7d") true rfl
      (fun front back => hfirst _ front back) (List.all_eq_true.mp rfl)
      (List.all_eq_true.mp rfl) (List.cons_ne_nil _ _) (fun b hb => by cases hb; rfl)).2
    exact h
  · have h := (limit_saturates.1 _ (ascii "\x7b") [] (ascii "99999999999999999999")
      (ascii "\x7d") false rfl (fun front back => hfirst _ front back)
      (List.all_eq_true.mp rfl) (List.all_eq_true.mp rfl) (List.cons_ne_nil _ _)
      (fun b hb => by cases hb; rfl)).2
    exact h

end TelemetryTestbed.WebSocket
