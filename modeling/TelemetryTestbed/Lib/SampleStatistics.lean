import Mathlib.Algebra.Order.BigOperators.Group.List
import Mathlib.Algebra.Order.Field.Basic

/-!
# Sample statistics

The average of a list and its sample variance, over an ordered field. The average lies
between all bounds of the values, the variance is zero where they are all equal, and
neither depends on the order of the values; nor do the least and the greatest of them.

The square root of the variance is left to the users, since an ordered field need not have
one. Over the rationals these are the exact values; a program that computes them with doubles
rounds at every step, and its results may lie outside of the bounds that are proved here.
-/

namespace TelemetryTestbed.Lib

variable {K : Type} [Field K] {l l' : List K} {lo hi : K}

def average (l : List K) : K := l.sum / l.length

/-- The sum of the squared distances to the average. -/
def squaredDeviations (l : List K) : K := (l.map fun v => (v - average l) ^ 2).sum

def sampleVariance (l : List K) : K := squaredDeviations l / (l.length - 1)

theorem average_perm (h : l.Perm l') : average l = average l' := by
  rw [average, average, h.sum_eq, h.length_eq]

theorem sampleVariance_perm (h : l.Perm l') : sampleVariance l = sampleVariance l' := by
  rw [sampleVariance, sampleVariance, squaredDeviations, squaredDeviations, average_perm h,
    (h.map _).sum_eq, h.length_eq]

section Order

variable [LinearOrder K]

omit [Field K] in
theorem min?_perm (h : l.Perm l') : l.min? = l'.min? := by
  refine Option.ext fun v => ?_
  rw [List.min?_eq_some_iff, List.min?_eq_some_iff]
  simp only [h.mem_iff]

omit [Field K] in
theorem max?_perm (h : l.Perm l') : l.max? = l'.max? := by
  refine Option.ext fun v => ?_
  rw [List.max?_eq_some_iff, List.max?_eq_some_iff]
  simp only [h.mem_iff]

variable [IsStrictOrderedRing K]

theorem length_cast_pos (h : l ≠ []) : (0 : K) < l.length :=
  Nat.cast_pos.mpr (List.length_pos_iff.mpr h)

theorem average_mul_length (h : l ≠ []) : average l * l.length = l.sum :=
  div_mul_cancel₀ _ (length_cast_pos h).ne'

theorem le_average (h : l ≠ []) (hlo : ∀ v ∈ l, lo ≤ v) : lo ≤ average l := by
  rw [average, le_div_iff₀ (length_cast_pos h), mul_comm, ← nsmul_eq_mul]
  exact List.card_nsmul_le_sum l lo hlo

theorem average_le (h : l ≠ []) (hhi : ∀ v ∈ l, v ≤ hi) : average l ≤ hi := by
  rw [average, div_le_iff₀ (length_cast_pos h), mul_comm, ← nsmul_eq_mul]
  exact List.sum_le_card_nsmul l hi hhi

theorem squaredDeviations_nonneg (l : List K) : 0 ≤ squaredDeviations l := by
  apply List.sum_nonneg
  intro d hd
  obtain ⟨v, -, rfl⟩ := List.mem_map.mp hd
  exact sq_nonneg _

/-- No deviation is there where every value is the average. -/
theorem squaredDeviations_eq_zero_iff : squaredDeviations l = 0 ↔ ∀ v ∈ l, v = average l := by
  have hnonneg : ∀ d ∈ l.map fun v => (v - average l) ^ 2, 0 ≤ d := by
    intro d hd
    obtain ⟨v, -, rfl⟩ := List.mem_map.mp hd
    exact sq_nonneg _
  constructor
  · intro hzero v hv
    have hmem := List.mem_map_of_mem (f := fun v => (v - average l) ^ 2) hv
    have hsq := List.all_zero_of_le_zero_le_of_sum_eq_zero hnonneg hzero hmem
    exact sub_eq_zero.mp (pow_eq_zero_iff two_ne_zero |>.mp hsq)
  · intro hall
    apply List.sum_eq_zero
    intro d hd
    obtain ⟨v, hv, rfl⟩ := List.mem_map.mp hd
    rw [← hall v hv, sub_self, zero_pow two_ne_zero]

/-- The variance of at least two values is as their deviations are. -/
theorem sampleVariance_nonneg (h : 2 ≤ l.length) : 0 ≤ sampleVariance l := by
  have hpos : (1 : K) ≤ l.length := by exact_mod_cast Nat.le_of_succ_le h
  exact div_nonneg (squaredDeviations_nonneg l) (sub_nonneg.mpr hpos)

theorem sampleVariance_eq_zero_iff (h : 2 ≤ l.length) :
    sampleVariance l = 0 ↔ ∀ v ∈ l, v = average l := by
  have hpos : (1 : K) < l.length := by exact_mod_cast h
  rw [sampleVariance, div_eq_zero_iff, or_iff_left (sub_pos.mpr hpos).ne',
    squaredDeviations_eq_zero_iff]

end Order

end TelemetryTestbed.Lib
