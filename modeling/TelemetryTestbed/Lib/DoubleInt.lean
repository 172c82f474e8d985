import Mathlib.Algebra.Order.Field.Power
import Mathlib.Data.Rat.Cast.Order
import Mathlib.Tactic.FieldSimp
import Mathlib.Tactic.Ring
import TelemetryTestbed.Lib.DoubleArith

/-!
# Whole numbers in doubles

A double has the value of a rational number (`toRat`). Integers below 2^53 are kept as
they are, also as the difference of two doubles (`toRat_sub`); larger ones round, and to
nothing below 2^53 (`le_toRat_sub`).

The bound 2^53 is that of the mantissa: up to it the integers are spaced one apart and each is
a double. The lemmas compare `toRat`, the exact value, with the integer, so what is said of a
computation is said of the number it stands for and not of its bits.
-/

namespace TelemetryTestbed.Lib

namespace Double

/-- A significand with its sign. -/
def signed (neg : Bool) (mant : Nat) : Int := if neg then -mant else mant

/-- The value of a finite double. -/
def toRat : Double → ℚ
  | .fin neg mant exp => signed neg mant * 2 ^ exp
  | _ => 0

/-- `x - y` -/
def sub : Double → Double → Double
  | .nan s, _ => .nan s
  | _, .nan s => .nan s
  | .inf s, .inf s' => if s = s' then .nan true else .inf s
  | .inf s, .fin _ _ _ => .inf s
  | .fin _ _ _, .inf s' => .inf (!s')
  | .fin s m e, .fin s' m' e' =>
    let low := min e e'
    let d := signed s m * 2 ^ (e - low).toNat - signed s' m' * 2 ^ (e' - low).toNat
    if d = 0 then .fin (s && !s') 0 0
    else ofRatio (d < 0) (d.natAbs * 2 ^ low.toNat) (2 ^ (-low).toNat)

/-- `max(0.0, x)` of Python, which takes `x` where it is greater. -/
def max0 : Double → Double
  | .nan _ => .fin false 0 0
  | .inf s => if s then .fin false 0 0 else .inf s
  | .fin s m e => if !s && m ≠ 0 then .fin s m e else .fin false 0 0

variable {num den n : Nat} {neg : Bool} {x y : Double}

theorem toRat_max0 (x : Double) : x.max0.toRat = max 0 x.toRat := by
  cases x with
  | nan neg => simp [max0, toRat, signed]
  | inf neg => cases neg <;> simp [max0, toRat, signed]
  | fin neg mant exp =>
    have hpow : (0 : ℚ) ≤ mant * 2 ^ exp := by positivity
    cases neg
    · by_cases hmant : mant = 0
      · simp [max0, hmant, toRat, signed]
      · simpa [max0, hmant, toRat, signed] using hpow
    · simpa [max0, toRat, signed] using hpow

/-! ## Ratios that are whole numbers -/

/-- The exponent is the low one, or the next where the significand would be too long. -/
theorem ofRatio_eq (neg : Bool) (hnum : num ≠ 0) (den : Nat) :
    ∃ exp, ofRatio neg num den =
        .fin neg (roundHalfEven (scaleDown num den exp).1 (scaleDown num den exp).2) exp ∧
      ((exp : Int) = num.log2 - den.log2 - 53 ∨
        exp = num.log2 - den.log2 - 53 + 1 ∧
          2 ^ 53 ≤ (scaleDown num den (exp - 1)).1 / (scaleDown num den (exp - 1)).2) := by
  refine ⟨_, by rw [ofRatio, if_neg hnum], ?_⟩
  split
  next => exact .inl rfl
  next h =>
    rw [Int.add_sub_cancel]
    exact .inr ⟨rfl, not_lt.mp h⟩

theorem log2_mul_le (hn : n ≠ 0) (hden : den ≠ 0) :
    n.log2 + den.log2 ≤ (n * den).log2 ∧ (n * den).log2 ≤ n.log2 + den.log2 + 1 := by
  have hmul : n * den ≠ 0 := Nat.mul_ne_zero hn hden
  constructor
  · rw [Nat.le_log2 hmul, Nat.pow_add]
    exact Nat.mul_le_mul (Nat.log2_self_le hn) (Nat.log2_self_le hden)
  · rw [← Nat.lt_succ_iff, Nat.log2_lt hmul]
    calc n * den < 2 ^ (n.log2 + 1) * 2 ^ (den.log2 + 1) :=
          Nat.mul_lt_mul'' Nat.lt_log2_self Nat.lt_log2_self
      _ = 2 ^ (n.log2 + den.log2 + 1).succ := by rw [← Nat.pow_add]; congr 1; omega

theorem roundHalfEven_of_mul (hden : 0 < den) (n : Nat) : roundHalfEven (n * den) den = n := by
  have hdiv : n * den / den = n := Nat.mul_div_cancel n hden
  have hmod : n * den % den = 0 := Nat.mul_mod_left n den
  simp only [roundHalfEven, hdiv, hmod]
  rw [if_neg (by omega)]

theorem div_le_roundHalfEven (num den : Nat) : num / den ≤ roundHalfEven num den := by
  unfold roundHalfEven
  dsimp only
  split
  · exact Nat.le_succ _
  · exact le_rfl

theorem scaleDown_of_nonpos {exp : Int} (h : exp ≤ 0) :
    scaleDown num den exp = (num * 2 ^ (-exp).toNat, den) := by
  unfold scaleDown
  split
  next hpos =>
    obtain rfl : exp = 0 := le_antisymm h hpos
    simp
  next => rfl

theorem scaleDown_zero : scaleDown num den 0 = (num, den) := by
  simp [scaleDown]

theorem two_zpow_of_nonpos {exp : Int} (h : exp ≤ 0) : (2 : ℚ) ^ (-exp).toNat * 2 ^ exp = 1 := by
  rw [← zpow_natCast, ← zpow_add₀ two_ne_zero, Int.toNat_of_nonneg (by omega), neg_add_cancel,
    zpow_zero]

theorem two_zpow_of_nonneg {exp : Int} (h : 0 ≤ exp) : (2 : ℚ) ^ exp = (2 ^ exp.toNat : Nat) := by
  rw [Nat.cast_pow, Nat.cast_ofNat, ← zpow_natCast, Int.toNat_of_nonneg h]

/-- An integer below 2^53 is a double. -/
theorem toRat_ofRatio (hden : 0 < den) (hn : n < 2 ^ 53) (neg : Bool) :
    (ofRatio neg (n * den) den).toRat = signed neg n := by
  rcases Nat.eq_zero_or_pos n with rfl | hpos
  · cases neg <;> simp [ofRatio, toRat, signed]
  · have hlog := log2_mul_le hpos.ne' hden.ne'
    have hlogn : n.log2 < 53 := (Nat.log2_lt hpos.ne').mpr hn
    obtain ⟨exp, heq, hexp⟩ := ofRatio_eq neg (Nat.mul_ne_zero hpos.ne' hden.ne') den
    have hnonpos : exp ≤ 0 := by
      rcases hexp with hexp | ⟨hexp, hlong⟩
      · omega
      · -- at the exponent one the number itself would be too long
        by_contra hpos'
        have hone : exp - 1 = 0 := by omega
        rw [hone, scaleDown_zero, Nat.mul_div_cancel n hden] at hlong
        omega
    have hscaled : n * den * 2 ^ (-exp).toNat = n * 2 ^ (-exp).toNat * den := by ring
    have hpow := two_zpow_of_nonpos hnonpos
    rw [heq, scaleDown_of_nonpos hnonpos, hscaled, roundHalfEven_of_mul hden]
    cases neg <;> simp [toRat, signed, mul_assoc, hpow]

/-- An integer from 2^53 on rounds to nothing below. -/
theorem le_toRat_ofRatio (hden : 0 < den) (hn : 2 ^ 53 ≤ n) :
    2 ^ 53 ≤ (ofRatio false (n * den) den).toRat := by
  have hpos : 0 < n := lt_of_lt_of_le (by decide) hn
  have hlog := log2_mul_le hpos.ne' hden.ne'
  have hlogn : 53 ≤ n.log2 := (Nat.le_log2 hpos.ne').mpr hn
  have hpositive := positive_ofRatio (Nat.mul_pos hpos hden) hden
  obtain ⟨exp, heq, hexp⟩ := ofRatio_eq false (Nat.mul_ne_zero hpos.ne' hden.ne') den
  have hnonneg : 0 ≤ exp := by
    rcases hexp with hexp | ⟨hexp, _⟩ <;> omega
  have hscale : scaleDown (n * den) den exp = (n * den, den * 2 ^ exp.toNat) := if_pos hnonneg
  have hquot : n * den / (den * 2 ^ exp.toNat) = n / 2 ^ exp.toNat := by
    rw [Nat.mul_comm n den, Nat.mul_div_mul_left _ _ hden]
  have hmant := div_le_roundHalfEven (n * den) (den * 2 ^ exp.toNat)
  rw [hquot] at hmant
  simp only [heq, hscale] at hpositive ⊢
  generalize roundHalfEven (n * den) (den * 2 ^ exp.toNat) = mant at hmant hpositive ⊢
  have hvalue : 2 ^ 53 ≤ mant * 2 ^ exp.toNat := by
    rcases le_total exp.toNat 53 with hle | hge
    · have hsplit : 2 ^ (53 - exp.toNat) * 2 ^ exp.toNat = 2 ^ 53 := by
        rw [← Nat.pow_add, Nat.sub_add_cancel hle]
      have hquot : 2 ^ (53 - exp.toNat) ≤ n / 2 ^ exp.toNat :=
        (Nat.le_div_iff_mul_le (Nat.two_pow_pos _)).mpr (hsplit ▸ hn)
      exact hsplit ▸ Nat.mul_le_mul_right _ (hquot.trans hmant)
    · calc 2 ^ 53 ≤ 2 ^ exp.toNat := Nat.pow_le_pow_right (by decide) hge
        _ ≤ mant * 2 ^ exp.toNat := Nat.le_mul_of_pos_left _ hpositive
  rw [toRat, two_zpow_of_nonneg hnonneg]
  simp only [signed, Bool.false_eq_true, if_false, Int.cast_natCast]
  exact_mod_cast hvalue

/-! ## Conversions and differences -/

theorem signed_natAbs (n : Int) : signed (n < 0) n.natAbs = n := by
  unfold signed
  split
  next h =>
    have hneg : n < 0 := of_decide_eq_true h
    omega
  next h =>
    have hnonneg : ¬ n < 0 := fun hneg => h (decide_eq_true hneg)
    omega

theorem isFinite_ofInt (n : Int) : (ofInt n).IsFinite := isFinite_ofRatio _ _ _

theorem isFinite_ofNat (n : Nat) : (ofNat n).IsFinite := isFinite_ofRatio _ _ _

theorem toRat_ofInt {n : Int} (h : n.natAbs < 2 ^ 53) : (ofInt n).toRat = n := by
  have hvalue := toRat_ofRatio Nat.one_pos h (n < 0)
  rwa [Nat.mul_one, signed_natAbs] at hvalue

theorem toRat_ofNat (h : n < 2 ^ 53) : (ofNat n).toRat = n := by
  have hvalue := toRat_ofRatio Nat.one_pos h false
  rw [Nat.mul_one] at hvalue
  rw [ofNat, hvalue]
  rfl

/-- The difference of the significands, at the lower of the two exponents. -/
def difference (s : Bool) (m : Nat) (e : Int) (s' : Bool) (m' : Nat) (e' : Int) : Int :=
  signed s m * 2 ^ (e - min e e').toNat - signed s' m' * 2 ^ (e' - min e e').toNat

theorem sub_fin (s : Bool) (m : Nat) (e : Int) (s' : Bool) (m' : Nat) (e' : Int) :
    sub (.fin s m e) (.fin s' m' e') =
      if difference s m e s' m' e' = 0 then .fin (s && !s') 0 0
      else ofRatio (difference s m e s' m' e' < 0)
        ((difference s m e s' m' e').natAbs * 2 ^ (min e e').toNat)
        (2 ^ (-min e e').toNat) := rfl

theorem difference_mul (s : Bool) (m : Nat) (e : Int) (s' : Bool) (m' : Nat) (e' : Int) :
    (difference s m e s' m' e' : ℚ) * 2 ^ min e e' =
      (fin s m e).toRat - (fin s' m' e').toRat := by
  have hpow {e low : Int} (h : low ≤ e) : (2 : ℚ) ^ e = 2 ^ (e - low).toNat * 2 ^ low := by
    rw [← zpow_natCast, Int.toNat_of_nonneg (by omega), ← zpow_add₀ two_ne_zero,
      Int.sub_add_cancel]
  rw [toRat, toRat, hpow (min_le_left e e'), hpow (min_le_right e e'), difference]
  push_cast
  ring

theorem exists_fin (h : x.IsFinite) : ∃ s m e, x = .fin s m e := by
  cases x with
  | fin s m e => exact ⟨s, m, e, rfl⟩
  | nan | inf => exact h.elim

theorem isFinite_sub (hx : x.IsFinite) (hy : y.IsFinite) : (x.sub y).IsFinite := by
  obtain ⟨s, m, e, rfl⟩ := exists_fin hx
  obtain ⟨s', m', e', rfl⟩ := exists_fin hy
  rw [sub_fin]
  split
  · exact True.intro
  · exact isFinite_ofRatio _ _ _

theorem isFinite_max0 (hx : x.IsFinite) : x.max0.IsFinite := by
  obtain ⟨s, m, e, rfl⟩ := exists_fin hx
  rw [max0]
  split <;> exact True.intro

/-- A difference that is a whole number is computed from it. -/
theorem sub_eq_ofRatio (hx : x.IsFinite) (hy : y.IsFinite) {n : Int} (hn : n ≠ 0)
    (hsub : x.toRat - y.toRat = n) :
    ∃ den, 0 < den ∧ x.sub y = ofRatio (n < 0) (n.natAbs * den) den := by
  obtain ⟨s, m, e, rfl⟩ := exists_fin hx
  obtain ⟨s', m', e', rfl⟩ := exists_fin hy
  have hd := difference_mul s m e s' m' e'
  rw [hsub] at hd
  rw [sub_fin]
  generalize difference s m e s' m' e' = d at hd ⊢
  generalize min e e' = low at hd ⊢
  have hscaled : d * 2 ^ low.toNat = n * 2 ^ (-low).toNat := by
    have hsplit : (2 : ℚ) ^ low * 2 ^ (-low).toNat = 2 ^ low.toNat := by
      rw [← zpow_natCast, ← zpow_natCast, ← zpow_add₀ two_ne_zero]
      congr 1
      omega
    have hrat : (d : ℚ) * 2 ^ low.toNat = n * 2 ^ (-low).toNat := by
      rw [← hd, ← hsplit, mul_assoc]
    exact_mod_cast hrat
  have hzero : d ≠ 0 := by
    rintro rfl
    rw [Int.cast_zero, zero_mul] at hd
    exact hn (by exact_mod_cast hd.symm)
  have hlow : (0 : Int) < 2 ^ low.toNat := by positivity
  have hhigh : (0 : Int) < 2 ^ (-low).toNat := by positivity
  have hsign : d < 0 ↔ n < 0 := by
    constructor
    · intro hneg
      exact Int.neg_of_mul_neg_left (hscaled ▸ Int.mul_neg_of_neg_of_pos hneg hlow) hhigh
    · intro hneg
      exact Int.neg_of_mul_neg_left (hscaled ▸ Int.mul_neg_of_neg_of_pos hneg hhigh) hlow
  have hnum : d.natAbs * 2 ^ low.toNat = n.natAbs * 2 ^ (-low).toNat := by
    have habs := congrArg Int.natAbs hscaled
    simpa [Int.natAbs_mul, Int.natAbs_pow] using habs
  refine ⟨2 ^ (-low).toNat, Nat.two_pow_pos _, ?_⟩
  rw [if_neg hzero, hnum, decide_eq_decide.mpr hsign]

theorem toRat_sub (hx : x.IsFinite) (hy : y.IsFinite) {n : Int} (hn : n.natAbs < 2 ^ 53)
    (hsub : x.toRat - y.toRat = n) : (x.sub y).toRat = n := by
  rcases eq_or_ne n 0 with rfl | hne
  · obtain ⟨s, m, e, rfl⟩ := exists_fin hx
    obtain ⟨s', m', e', rfl⟩ := exists_fin hy
    have hd := difference_mul s m e s' m' e'
    rw [hsub, Int.cast_zero, mul_eq_zero] at hd
    have hzero : difference s m e s' m' e' = 0 := by
      rcases hd with hd | hd
      · exact_mod_cast hd
      · exact absurd hd (zpow_ne_zero _ two_ne_zero)
    simp [sub_fin, hzero, toRat, signed]
  · obtain ⟨den, hden, heq⟩ := sub_eq_ofRatio hx hy hne hsub
    rw [heq, toRat_ofRatio hden hn, signed_natAbs]

/-- A difference that is too large rounds to nothing below 2^53. -/
theorem le_toRat_sub (hx : x.IsFinite) (hy : y.IsFinite) {n : Int} (hn : 2 ^ 53 ≤ n)
    (hsub : x.toRat - y.toRat = n) : 2 ^ 53 ≤ (x.sub y).toRat := by
  obtain ⟨den, hden, heq⟩ := sub_eq_ofRatio hx hy (by omega) hsub
  rw [heq, decide_eq_false (by omega)]
  exact le_toRat_ofRatio hden (by omega)

end Double

end TelemetryTestbed.Lib
