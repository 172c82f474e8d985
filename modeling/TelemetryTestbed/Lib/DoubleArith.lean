import Mathlib.Data.Rat.Defs
import Mathlib.Algebra.Order.Ring.Nat
import TelemetryTestbed.Lib.Double

/-!
# Arithmetic on doubles, and `%.kf`

Products and quotients round once, like the conversions, and like there nothing comes
near the ends of the exponent range. A computation on numbers that are not negative
stays one (`Unsigned.div`), and is printed without a sign.

`formatFixed` prints the value rounded to `k` decimals, half to even on the exact binary
value, as the C library does. A negative zero keeps its sign in print, so the lemmas on signs
ask for numbers that are not negative, and `Positive` for those where a division has no
special case.
-/

namespace TelemetryTestbed.Lib

namespace Double

/-- The conversion of an unsigned integer. -/
def ofNat (n : Nat) : Double := ofRatio false n 1

/-- `x * y` -/
def mul : Double → Double → Double
  | .nan s, _ => .nan s
  | _, .nan s => .nan s
  | .inf s, .inf s' => .inf (s != s')
  | .inf s, .fin s' m _ => if m = 0 then .nan (s != s') else .inf (s != s')
  | .fin s m _, .inf s' => if m = 0 then .nan (s != s') else .inf (s != s')
  | .fin s m e, .fin s' m' e' =>
    ofRatio (s != s') (m * m' * 2 ^ (e + e').toNat) (2 ^ (-(e + e')).toNat)

/-- `x / y` -/
def div : Double → Double → Double
  | .nan s, _ => .nan s
  | _, .nan s => .nan s
  | .inf s, .inf s' => .nan (s != s')
  | .inf s, .fin s' _ _ => .inf (s != s')
  | .fin s _ _, .inf s' => .fin (s != s') 0 0
  | .fin s m e, .fin s' m' e' =>
    if m' = 0 then if m = 0 then .nan (s != s') else .inf (s != s')
    else ofRatio (s != s') (m * 2 ^ (e - e').toNat) (m' * 2 ^ (e' - e).toNat)

/-- `x <= 0.0` -/
def leZero : Double → Bool
  | .nan _ => false
  | .inf s => s
  | .fin s m _ => s || m = 0

/-- A number of units of `10 ^ -k`, with `k` decimals. -/
def fixedPoint (k n : Nat) : Bytes := decimalNat (n / 10 ^ k) ++ 46 :: fixedDigits k (n % 10 ^ k)

/-- `|x| * 10 ^ k`, rounded to an integer. -/
def scaled (k mant : Nat) (exp : Int) : Nat :=
  roundHalfEven (mant * 2 ^ exp.toNat * 10 ^ k) (2 ^ (-exp).toNat)

/-- What `%.kf` prints. -/
def formatFixed (k : Nat) : Double → Bytes
  | .nan neg => minusIf neg (ascii "nan")
  | .inf neg => minusIf neg (ascii "inf")
  | .fin neg mant exp => minusIf neg (fixedPoint k (scaled k mant exp))

theorem format6_eq (x : Double) : x.format6 = x.formatFixed 6 := by
  cases x with
  | nan neg => rfl
  | inf neg => rfl
  | fin neg mant exp => rfl

/-- The units of `10 ^ -k` that `%.kf` prints of a number. -/
def units (k : Nat) : Double → Nat
  | .fin _ mant exp => scaled k mant exp
  | _ => 0

/-! ## Signs -/

/-- A number without a sign. -/
def Unsigned : Double → Prop
  | .fin false _ _ => True
  | _ => False

def Positive : Double → Prop
  | .fin false mant _ => 0 < mant
  | _ => False

variable {x y : Double} {num den n : Nat}

theorem Positive.unsigned (h : x.Positive) : x.Unsigned := by
  unfold Positive at h
  split at h
  · exact True.intro
  · exact h.elim

theorem unsigned_iff : x.Unsigned ↔ ∃ mant exp, x = .fin false mant exp := by
  constructor
  · intro h
    unfold Unsigned at h
    split at h
    · exact ⟨_, _, rfl⟩
    · exact h.elim
  · rintro ⟨mant, exp, rfl⟩
    exact True.intro

theorem positive_iff : x.Positive ↔ ∃ mant exp, x = .fin false mant exp ∧ 0 < mant := by
  constructor
  · intro h
    unfold Positive at h
    split at h
    · exact ⟨_, _, rfl, h⟩
    · exact h.elim
  · rintro ⟨mant, exp, rfl, h⟩
    exact h

/-- A number that is not negative and not zero. -/
theorem Unsigned.positive (h : x.Unsigned) (hzero : x.leZero = false) : x.Positive := by
  obtain ⟨mant, exp, rfl⟩ := unsigned_iff.mp h
  rw [leZero, Bool.false_or, decide_eq_false_iff_not] at hzero
  exact Nat.pos_of_ne_zero hzero

/-- A number without a sign is printed as one. -/
theorem Unsigned.formatFixed (h : x.Unsigned) (k : Nat) :
    x.formatFixed k = fixedPoint k (x.units k) := by
  obtain ⟨mant, exp, rfl⟩ := unsigned_iff.mp h
  rfl

theorem unsigned_ofRatio (num den : Nat) : (ofRatio false num den).Unsigned := by
  unfold ofRatio
  split
  · exact True.intro
  · exact True.intro

theorem unsigned_ofNat (n : Nat) : (ofNat n).Unsigned := unsigned_ofRatio n 1

theorem unsigned_ofInt {n : Int} (h : 0 ≤ n) : (ofInt n).Unsigned := by
  have hsign : decide (n < 0) = false := decide_eq_false (Int.not_lt.mpr h)
  rw [ofInt, hsign]
  exact unsigned_ofRatio _ _

theorem Unsigned.mul (hx : x.Unsigned) (hy : y.Unsigned) : (x.mul y).Unsigned := by
  obtain ⟨m, e, rfl⟩ := unsigned_iff.mp hx
  obtain ⟨m', e', rfl⟩ := unsigned_iff.mp hy
  exact unsigned_ofRatio _ _

theorem Unsigned.div (hx : x.Unsigned) (hy : y.Positive) : (x.div y).Unsigned := by
  obtain ⟨m, e, rfl⟩ := unsigned_iff.mp hx
  obtain ⟨m', e', rfl, hm⟩ := positive_iff.mp hy
  rw [Double.div, if_neg hm.ne']
  exact unsigned_ofRatio _ _

/-! ## Nothing rounds to zero -/

/-- The scale is fine enough to keep a digit of the quotient. -/
theorem le_scaleDown {exp : Int} (hnum : num ≠ 0)
    (hexp : exp + Nat.log2 den + 1 ≤ Nat.log2 num) :
    (scaleDown num den exp).2 ≤ (scaleDown num den exp).1 := by
  have hlow : 2 ^ Nat.log2 num ≤ num := Nat.log2_self_le hnum
  have hhigh : den < 2 ^ (Nat.log2 den + 1) := Nat.lt_log2_self
  unfold scaleDown
  split
  next hpos =>
    have hsum : Nat.log2 den + 1 + exp.toNat ≤ Nat.log2 num := by omega
    calc den * 2 ^ exp.toNat
        ≤ 2 ^ (Nat.log2 den + 1) * 2 ^ exp.toNat := Nat.mul_le_mul_right _ hhigh.le
      _ = 2 ^ (Nat.log2 den + 1 + exp.toNat) := (Nat.pow_add 2 _ _).symm
      _ ≤ 2 ^ Nat.log2 num := Nat.pow_le_pow_right (by decide) hsum
      _ ≤ num := hlow
  next hneg =>
    have hsum : Nat.log2 den + 1 ≤ Nat.log2 num + (-exp).toNat := by omega
    calc den
        ≤ 2 ^ (Nat.log2 den + 1) := hhigh.le
      _ ≤ 2 ^ (Nat.log2 num + (-exp).toNat) := Nat.pow_le_pow_right (by decide) hsum
      _ = 2 ^ Nat.log2 num * 2 ^ (-exp).toNat := Nat.pow_add 2 _ _
      _ ≤ num * 2 ^ (-exp).toNat := Nat.mul_le_mul_right _ hlow

theorem scaleDown_pos {exp : Int} (hden : 0 < den) : 0 < (scaleDown num den exp).2 := by
  unfold scaleDown
  split
  · exact Nat.mul_pos hden (Nat.two_pow_pos _)
  · exact hden

theorem roundHalfEven_pos (hden : 0 < den) (h : den ≤ num) : 0 < roundHalfEven num den := by
  have hquot : 0 < num / den := Nat.div_pos h hden
  unfold roundHalfEven
  dsimp only
  split
  · exact Nat.succ_pos _
  · exact hquot

theorem positive_ofRatio (hnum : 0 < num) (hden : 0 < den) : (ofRatio false num den).Positive := by
  unfold ofRatio
  rw [if_neg hnum.ne']
  apply roundHalfEven_pos (scaleDown_pos hden)
  apply le_scaleDown hnum.ne'
  split
  · omega
  · omega

theorem positive_ofNat (h : 0 < n) : (ofNat n).Positive := positive_ofRatio h Nat.one_pos

end Double

end TelemetryTestbed.Lib
