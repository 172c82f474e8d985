import TelemetryTestbed.Lib.Double
import TelemetryTestbed.Lib.Json

/-!
# Numbers pasted into a text

A numeral that `printf` wrote is read back in full when a separator follows it, and
so is what `%.6f` writes of a finite number. The texts `nan` and `inf` begin no
JSON value.

The separator matters: without one the parser would go on into the next digits. The lemmas are
stated with the rest of the text behind the numeral, as they are used inside a document, and
the three separators are the ones that a frame of braces and brackets can put there.
-/

namespace TelemetryTestbed.Lib.Json

/-- What follows a value: nothing, a comma or a closing bracket. -/
def Delimited (r : Bytes) : Prop := ∀ b, r.head? = some b → b = 0x2C ∨ b = 0x7D ∨ b = 0x5D

theorem delimited_nil : Delimited [] := fun _ h => by cases h

theorem delimited_cons {b : UInt8} {r : Bytes} (h : b = 0x2C ∨ b = 0x7D ∨ b = 0x5D) :
    Delimited (b :: r) := fun c hc => by
  cases hc
  exact h

variable {r ds : Bytes}

/-! ## Digits -/

theorem digits_append (hds : ∀ b ∈ ds, isdigit b = true) (hne : ds ≠ [])
    (hr : ∀ b, r.head? = some b → isdigit b = false) : digits (ds ++ r) = some (ds, r) := by
  have htake : r.takeWhile isdigit = [] ∧ r.dropWhile isdigit = r := by
    cases r with
    | nil => exact ⟨rfl, rfl⟩
    | cons b r =>
      have hb := hr b rfl
      exact ⟨List.takeWhile_cons_of_neg (by simp [hb]), List.dropWhile_cons_of_neg (by simp [hb])⟩
  unfold digits
  rw [List.takeWhile_append_of_pos hds, List.dropWhile_append_of_pos hds, htake.1, htake.2,
    List.append_nil]
  exact if_neg hne

theorem Delimited.not_digit (h : Delimited r) : ∀ b, r.head? = some b → isdigit b = false := by
  intro b hb
  rcases h b hb with rfl | rfl | rfl <;> rfl

theorem Delimited.fraction (h : Delimited r) : fraction r = some ([], r) := by
  unfold Json.fraction
  split
  next bs =>
    rcases h 0x2E rfl with h | h | h <;> cases h
  next => rfl

theorem Delimited.exponent (h : Delimited r) : exponent r = some (0, r) := by
  unfold Json.exponent
  split
  next b bs =>
    have hb : ¬ (b = 0x65 ∨ b = 0x45) := by
      rcases h b rfl with rfl | rfl | rfl <;> decide
    exact if_neg hb
  next => rfl

/-! ## Numerals -/

/-- Only the numeral `0` starts with a zero. -/
theorem decimalNat_no_leading_zero (n : Nat) :
    ¬ ((decimalNat n).head? = some 48 ∧ decimalNat n ≠ [48]) := by
  rintro ⟨hhead, hne⟩
  obtain ⟨ds, hds⟩ := List.head?_eq_some_iff.mp hhead
  exact hne (hds.trans (by rw [decimalNat_head hds]))

theorem unsigned_decimalNat (n : Nat) (h : Delimited r) :
    unsigned (decimalNat n ++ r) = some ((n, 0), r) := by
  unfold unsigned
  rw [digits_append (fun b hb => isdigit_decimalNat hb) (decimalNat_ne_nil n) h.not_digit,
    Option.bind_some]
  dsimp only
  rw [if_neg (decimalNat_no_leading_zero n), h.fraction, Option.bind_some]
  dsimp only
  rw [h.exponent]
  simp only [Option.map_some, List.append_nil, ofDigits10_decimalNat, List.length_nil,
    Nat.cast_zero, Int.sub_zero]

/-- A number of millionths is read back. -/
theorem unsigned_fixed6 (n : Nat) (h : Delimited r) :
    unsigned (fixed6 n ++ r) = some ((n, -6), r) := by
  have hpoint : ∀ b, (46 :: (fixedDigits 6 (n % 10 ^ 6) ++ r)).head? = some b →
      isdigit b = false := by
    intro b hb
    cases hb
    rfl
  have hfixed : digits (fixedDigits 6 (n % 10 ^ 6) ++ r) =
      some (fixedDigits 6 (n % 10 ^ 6), r) := by
    refine digits_append (fun b hb => isdigit_fixedDigits hb) (fun e => ?_) h.not_digit
    have hlen := length_fixedDigits 6 (n % 10 ^ 6)
    rw [e] at hlen
    cases hlen
  have hvalue : ofDigits10 (decimalNat (n / 10 ^ 6) ++ fixedDigits 6 (n % 10 ^ 6)) = n := by
    rw [ofDigits10_append_fixedDigits, ofDigits10_decimalNat, Nat.mod_mod, Nat.mul_comm]
    exact Nat.div_add_mod n (10 ^ 6)
  unfold unsigned fixed6
  rw [List.append_assoc, List.cons_append,
    digits_append (fun b hb => isdigit_decimalNat hb) (decimalNat_ne_nil _) hpoint,
    Option.bind_some]
  dsimp only
  rw [if_neg (decimalNat_no_leading_zero _), fraction, hfixed, Option.bind_some]
  dsimp only
  rw [h.exponent]
  simp only [Option.map_some, length_fixedDigits, hvalue]
  rfl

/-! ## Values -/

theorem value_number {b : UInt8} (hb : b = 0x2D ∨ isdigit b = true) (n : Nat) (bs : Bytes) :
    value (n + 1) (b :: bs) = number (b :: bs) := by
  have hne : ∀ c : UInt8, c ≠ 0x2D → isdigit c = false → b ≠ c := by
    rintro c hminus hdigit rfl
    rcases hb with hb | hb
    · exact hminus hb
    · rw [hdigit] at hb
      cases hb
  have hws : isWs b = false := by
    unfold isWs
    simp only [hne 0x20 (by decide) (by decide), hne 0x09 (by decide) (by decide),
      hne 0x0A (by decide) (by decide), hne 0x0D (by decide) (by decide), decide_false,
      Bool.or_false]
  rw [value, skipWs, List.dropWhile_cons_of_neg (by simp [hws])]
  dsimp only
  rw [if_neg (hne _ (by decide) (by decide)), if_neg (hne _ (by decide) (by decide)),
    if_neg (hne _ (by decide) (by decide)), if_neg (hne _ (by decide) (by decide)),
    if_neg (hne _ (by decide) (by decide)), if_neg (hne _ (by decide) (by decide))]

/-- A number with an optional minus sign. -/
theorem value_minusIf {bs : Bytes} {m : Nat} {e : Int} (neg : Bool) (n : Nat)
    (hdigit : ∀ b, bs.head? = some b → isdigit b = true) (hne : bs ≠ [])
    (h : unsigned (bs ++ r) = some ((m, e), r)) :
    value (n + 1) (minusIf neg bs ++ r) = some (.num (if neg then -m else m) e, r) := by
  cases bs with
  | nil => exact absurd rfl hne
  | cons b bs =>
    have hb := hdigit b rfl
    cases neg with
    | true =>
      show value (n + 1) (0x2D :: (b :: bs ++ r)) = _
      rw [value_number (Or.inl rfl), number, h]
      rfl
    | false =>
      show value (n + 1) (b :: (bs ++ r)) = _
      rw [value_number (Or.inr hb)]
      unfold number
      split
      next hminus =>
        obtain ⟨rfl, -⟩ := List.cons.inj hminus
        cases hb
      next =>
        rw [List.cons_append] at h
        rw [h]
        rfl

theorem value_decimal (m : Int) (n : Nat) (h : Delimited r) :
    value (n + 1) (decimal m ++ r) = some (.num m 0, r) := by
  have hdigit : ∀ k b, (decimalNat k).head? = some b → isdigit b = true := fun k b hb =>
    isdigit_decimalNat (List.mem_of_mem_head? hb)
  have hsign : decimal m = minusIf (m < 0) (decimalNat m.natAbs) := by
    unfold decimal minusIf
    simp only [decide_eq_true_eq]
  rw [hsign, value_minusIf _ n (hdigit _) (decimalNat_ne_nil _) (unsigned_decimalNat _ h)]
  congr 3
  split
  next hneg =>
    have := of_decide_eq_true hneg
    omega
  next hneg =>
    have : ¬ m < 0 := fun h => hneg (decide_eq_true h)
    omega

/-- A text that is one value, whatever follows it. -/
def Atom (t : Bytes) : Prop :=
  ∃ v, ∀ n r, Delimited r → value (n + 1) (t ++ r) = some (v, r)

/-- A text that begins no value. -/
def Refused (t : Bytes) : Prop := ∀ n r, value n (t ++ r) = none

theorem atom_format6 {x : Double} (h : x.IsFinite) : Atom x.format6 := by
  cases x with
  | nan neg => exact h.elim
  | inf neg => exact h.elim
  | fin neg mant exp =>
    refine ⟨_, fun n r hr => value_minusIf neg n ?_ ?_ (unsigned_fixed6 _ hr)⟩
    · intro b hb
      rw [fixed6, List.head?_append_of_ne_nil _ (decimalNat_ne_nil _)] at hb
      exact isdigit_decimalNat (List.mem_of_mem_head? hb)
    · exact List.append_ne_nil_of_left_ne_nil (decimalNat_ne_nil _) _

theorem refused_format6 {x : Double} (h : ¬ x.IsFinite) : Refused x.format6 := by
  intro n r
  cases n with
  | zero => rfl
  | succ n =>
    cases x with
    | nan neg => cases neg <;> rfl
    | inf neg => cases neg <;> rfl
    | fin neg mant exp => exact absurd True.intro h

end TelemetryTestbed.Lib.Json
