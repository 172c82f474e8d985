import TelemetryTestbed.Lib.Decimal

/-!
# Binary64 numbers and `%.6f`

A `double` is a dyadic number with a sign, an infinity or a NaN. Conversions round
to the nearest value, ties to the even one; `%.6f` rounds the exact value to six
decimals in the same way. The numbers met here stay far from the ends of the
exponent range, so nothing overflows and nothing is subnormal after a rounding.

The representation is not unique: `fin neg mant exp` is a mantissa and a binary exponent, and
the same number has many of them. Nothing here compares doubles by their fields; what is
printed and what is computed depends on the value alone.
-/

namespace TelemetryTestbed.Lib

/-- A `double` by its value: a NaN or an infinity with its sign, or a mantissa times a power of
two. -/
inductive Double
  | nan (neg : Bool)
  | inf (neg : Bool)
  /-- `± mant * 2 ^ exp` -/
  | fin (neg : Bool) (mant : Nat) (exp : Int)
  deriving DecidableEq

namespace Double

def IsFinite : Double → Prop
  | .fin _ _ _ => True
  | _ => False

instance : DecidablePred IsFinite := fun
  | .fin _ _ _ => .isTrue True.intro
  | .nan _ | .inf _ => .isFalse id

end Double

/-- The integer nearest to `num / den`, and the even one of two. -/
def roundHalfEven (num den : Nat) : Nat :=
  let q := num / den
  let r := num % den
  if den < 2 * r ∨ (den = 2 * r ∧ q % 2 = 1) then q + 1 else q

/-- `num / den` as a fraction of `2 ^ exp`. -/
def scaleDown (num den : Nat) (exp : Int) : Nat × Nat :=
  if 0 ≤ exp then (num, den * 2 ^ exp.toNat) else (num * 2 ^ (-exp).toNat, den)

/-- The `double` nearest to `num / den`. -/
def Double.ofRatio (neg : Bool) (num den : Nat) : Double :=
  if num = 0 then .fin neg 0 0
  else
    let low : Int := (Nat.log2 num : Int) - Nat.log2 den - 53
    let (n, d) := scaleDown num den low
    let exp := if n / d < 2 ^ 53 then low else low + 1
    let (n, d) := scaleDown num den exp
    .fin neg (roundHalfEven n d) exp

/-- The conversion of an integer to `double`. -/
def Double.ofInt (n : Int) : Double := .ofRatio (n < 0) n.natAbs 1

/-- The division of a `double` by a positive integer that is a `double` itself. -/
def Double.divNat (x : Double) (n : Nat) : Double :=
  match x with
  | .fin neg mant exp => .ofRatio neg (mant * 2 ^ exp.toNat) (n * 2 ^ (-exp).toNat)
  | x => x

theorem Double.isFinite_ofRatio (neg : Bool) (num den : Nat) :
    (Double.ofRatio neg num den).IsFinite := by
  unfold Double.ofRatio
  split <;> exact True.intro

theorem Double.isFinite_divNat {x : Double} (h : x.IsFinite) (n : Nat) :
    (x.divNat n).IsFinite := by
  cases x with
  | nan neg => exact h.elim
  | inf neg => exact h.elim
  | fin neg mant exp => exact Double.isFinite_ofRatio neg _ _

/-- The `float` with the given bits, promoted to `double`. -/
def Double.ofFloatBits (bits : UInt32) : Double :=
  let neg := 2 ^ 31 ≤ bits.toNat
  let exp : Nat := bits.toNat / 2 ^ 23 % 2 ^ 8
  let frac : Nat := bits.toNat % 2 ^ 23
  if exp = 255 then if frac = 0 then .inf neg else .nan neg
  else if exp = 0 then .fin neg frac (-149)
  else .fin neg (frac + 2 ^ 23) ((exp : Int) - 150)

/-- `|x| * 10 ^ 6`, rounded to an integer. -/
def micros (mant : Nat) (exp : Int) : Nat :=
  roundHalfEven (mant * 2 ^ exp.toNat * 10 ^ 6) (2 ^ (-exp).toNat)

/-- A number of millionths, with six decimals. -/
def fixed6 (n : Nat) : Bytes := decimalNat (n / 10 ^ 6) ++ 46 :: fixedDigits 6 (n % 10 ^ 6)

def minusIf (neg : Bool) (text : Bytes) : Bytes := if neg then 45 :: text else text

/-- What `%.6f` prints. -/
def Double.format6 : Double → Bytes
  | .nan neg => minusIf neg (ascii "nan")
  | .inf neg => minusIf neg (ascii "inf")
  | .fin neg mant exp => minusIf neg (fixed6 (micros mant exp))

/-- A sum that rounds in the last decimal, a tie, and a time stamp. -/
example : (Double.ofFloatBits 0x3DCCCCCD).format6 = ascii "0.100000" ∧
    (Double.ofFloatBits 0xBF800000).format6 = ascii "-1.000000" ∧
    ((Double.ofInt 1700000000123456789).divNat 1000000000).format6 =
      ascii "1700000000.123457" := by
  decide

end TelemetryTestbed.Lib
