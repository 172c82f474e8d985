import Mathlib.Algebra.Order.Floor.Ring
import Mathlib.Algebra.BigOperators.Group.List.Basic

/-!
# Fractional accumulators

An accumulator counts whole units of a quantity that arrives in fractions: it adds
what arrives to the fraction it keeps, hands the whole units of that on, and keeps
the rest. Nothing is lost: what was handed on and what is kept are together what has
arrived, so the units handed on are always the whole units of it.

The invariant is `Holds`: the fraction is in [0, 1), and with the whole units it makes the
total. It is kept by every addition, of a negative amount too (`Holds.foldl`); only that an
amount is not negative and below a bound makes the units of one addition fit a type of that
size. The field is any floor ring, so nothing here rounds.
-/

namespace TelemetryTestbed.Lib

variable {α : Type*} [Ring α] [LinearOrder α] [FloorRing α]

/-- The fraction that is kept, and the number of units handed on. -/
structure Accumulator (α : Type*) where
  frac : α
  whole : ℤ

namespace Accumulator

def zero : Accumulator α := ⟨0, 0⟩

/-- An amount arrives. -/
def add (a : Accumulator α) (x : α) : Accumulator α where
  frac := a.frac + x - ⌊a.frac + x⌋
  whole := a.whole + ⌊a.frac + x⌋

/-- What the accumulator holds is what has arrived: its whole part and a fraction of less than
one add up to the total. -/
structure Holds (a : Accumulator α) (total : α) : Prop where
  frac_nonneg : 0 ≤ a.frac
  frac_lt_one : a.frac < 1
  total_eq : total = a.whole + a.frac

theorem holds_zero [ZeroLEOneClass α] [Nontrivial α] : (zero : Accumulator α).Holds 0 where
  frac_nonneg := le_rfl
  frac_lt_one := zero_lt_one
  total_eq := by simp [zero]

variable [IsStrictOrderedRing α] {a : Accumulator α} {total : α}

theorem Holds.add (h : a.Holds total) (x : α) : (a.add x).Holds (total + x) where
  frac_nonneg := Int.fract_nonneg _
  frac_lt_one := Int.fract_lt_one _
  total_eq := by
    have h := h.total_eq
    simp only [Accumulator.add, Int.cast_add, h]
    abel

theorem Holds.foldl (h : a.Holds total) (xs : List α) :
    (xs.foldl Accumulator.add a).Holds (total + xs.sum) := by
  induction xs generalizing a total with
  | nil => simpa using h
  | cons x xs ih => simpa [add_assoc] using ih (h.add x)

/-- The units handed on are the whole units of what has arrived. -/
theorem Holds.whole_eq (h : a.Holds total) : a.whole = ⌊total⌋ := by
  have hfrac : ⌊a.frac⌋ = 0 := Int.floor_eq_zero_iff.mpr ⟨h.frac_nonneg, h.frac_lt_one⟩
  rw [h.total_eq, Int.floor_intCast_add, hfrac, add_zero]

theorem Holds.floor_add_nonneg (h : a.Holds total) {x : α} (hx : 0 ≤ x) : 0 ≤ ⌊a.frac + x⌋ :=
  Int.floor_nonneg.mpr (add_nonneg h.frac_nonneg hx)

/-- What is handed on at once is at most one more than what arrives. -/
theorem Holds.floor_add_lt (h : a.Holds total) {x : α} {n : ℤ} (hx : x < n - 1) :
    ⌊a.frac + x⌋ < n := by
  have hsum : a.frac + x < 1 + (n - 1) := add_lt_add h.frac_lt_one hx
  rw [Int.floor_lt]
  simpa using hsum

end Accumulator

end TelemetryTestbed.Lib
