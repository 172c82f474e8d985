import TelemetryTestbed.Analysis.Percentile
import TelemetryTestbed.Lib.OrderStatistics
import TelemetryTestbed.Lib.Traversal

/-!
# The laws of percentiles

On the percentages from 0 to 100 the position lies in the sorted list, and what
`percentile` answers is the line between the order statistics (`percentile_eq`). The laws
are those of the lines.

The position grows with the percentage and the order statistics grow with the values, so all
laws are monotonicity of one function in one of its arguments. Outside of 0 to 100 the
position can leave the list, and nothing is said there.
-/

namespace TelemetryTestbed.Analysis

open Lib

variable {values values' : List (Option ℚ)} {vals : List ℚ} {k p q : ℚ} {n : Nat}

/-! ## What stands at a position -/

theorem pyInt_natCast (n : Nat) : pyInt (n : ℚ) = n := by simp [pyInt]

theorem pyGetItem_natCast (h : n < vals.length) : pyGetItem vals (n : Int) = some (valueAt vals n) := by
  rw [pyGetItem, if_pos (Int.natCast_nonneg n), Int.toNat_natCast]
  exact getElem?_eq_valueAt h

theorem valueBetween_eq (hk : 0 ≤ k) (hlength : ⌈k⌉ < vals.length) :
    valueBetween vals k = some (interpolate (valueAt vals) k) := by
  obtain ⟨lo, hlo⟩ := Int.eq_ofNat_of_zero_le (Int.floor_nonneg.mpr hk)
  have hfloor : ⌊k⌋₊ = lo := by rw [← Int.floor_toNat, hlo]; rfl
  have hle := Int.floor_le_ceil k
  by_cases heq : ⌊k⌋ = ⌈k⌉
  · -- the position is a whole number
    have hk' : k = lo := by
      have h₁ := Int.floor_le k
      have h₂ := Int.le_ceil k
      rw [← heq] at h₂
      rw [hlo, Int.cast_natCast] at h₁ h₂
      exact le_antisymm h₂ h₁
    have hlo' : lo < vals.length := by omega
    simp only [valueBetween, heq, if_true]
    rw [hk', pyInt_natCast, pyGetItem_natCast hlo', interpolate_natCast]
  · have hceil : ⌈k⌉ = (lo + 1 : Nat) := by
      have := Int.ceil_le_floor_add_one k
      omega
    have hlo' : lo + 1 < vals.length := by omega
    simp only [valueBetween, if_neg heq]
    rw [hlo, hceil, pyGetItem_natCast hlo', pyGetItem_natCast (Nat.lt_of_succ_lt hlo')]
    simp only [interpolate, hfloor, Option.bind_eq_bind, Option.bind_some, Option.pure_def]
    congr 1
    push_cast
    ring

/-- The position lies in the list. -/
theorem position_bounds (hn : 0 < n) (hp : 0 ≤ p) (hp' : p ≤ 100) :
    0 ≤ position n p ∧ position n p ≤ (n - 1 : Nat) := by
  have hcast : ((n - 1 : Nat) : ℚ) = n - 1 := by push_cast [hn]; ring
  have hpos : (0 : ℚ) ≤ n - 1 := hcast ▸ Nat.cast_nonneg _
  refine ⟨div_nonneg (mul_nonneg hpos hp) (by norm_num), ?_⟩
  rw [position, hcast, div_le_iff₀ (by norm_num)]
  exact mul_le_mul_of_nonneg_left hp' hpos

theorem position_mono (hn : 0 < n) (hpq : p ≤ q) : position n p ≤ position n q := by
  have hpos : (0 : ℚ) ≤ n - 1 := sub_nonneg.mpr (by exact_mod_cast hn)
  exact div_le_div_of_nonneg_right (mul_le_mul_of_nonneg_left hpq hpos) (by norm_num)

/-- Neither index of `percentile` is negative or behind the list. -/
theorem indexes_bounds (hvals : vals ≠ []) (hp : 0 ≤ p) (hp' : p ≤ 100) :
    0 ≤ ⌊position vals.length p⌋ ∧ ⌈position vals.length p⌉ < vals.length := by
  have hpos := List.length_pos_iff.mpr hvals
  obtain ⟨hlow, hhigh⟩ := position_bounds hpos hp hp'
  refine ⟨Int.floor_nonneg.mpr hlow, ?_⟩
  have : ⌈position vals.length p⌉ ≤ ((vals.length - 1 : Nat) : Int) :=
    Int.ceil_le.mpr (by simpa using hhigh)
  omega

/-! ## The percentile -/

theorem sortedVals_ne_nil (h : values.filterMap id ≠ []) : sortedVals values ≠ [] := by
  intro hnil
  have hperm : (sortedVals values).Perm (values.filterMap id) := List.perm_insertionSort _ _
  rw [hnil] at hperm
  exact h hperm.symm.eq_nil

theorem percentile_eq (h : values.filterMap id ≠ []) (hp : 0 ≤ p) (hp' : p ≤ 100) :
    percentile values p = some (some (interpolate (valueAt (sortedVals values))
      (position (sortedVals values).length p))) := by
  have hne := sortedVals_ne_nil h
  have hbounds := indexes_bounds hne hp hp'
  have hposition := (position_bounds (List.length_pos_iff.mpr hne) hp hp').1
  unfold percentile
  match hvals : sortedVals values with
  | [] => exact absurd hvals hne
  | [v] =>
    have hzero : position 1 p = (0 : Nat) := by simp [position]
    simp only [List.length_singleton, hzero, interpolate_natCast]
    rfl
  | v :: v' :: vs =>
    rw [hvals] at hbounds hposition
    simp only [valueBetween_eq hposition hbounds.2, Option.map_some]

theorem percentile_of_nil (h : values.filterMap id = []) (p : ℚ) :
    percentile values p = some none := by
  have hvals : sortedVals values = [] := by rw [sortedVals, h]; rfl
  simp only [percentile, hvals]

/-- The values of a sorted list lie between its first and its last. -/
theorem valueAt_bounds (h : vals.Pairwise (· ≤ ·)) {v : ℚ} (hv : v ∈ vals) :
    valueAt vals 0 ≤ v ∧ v ≤ valueAt vals (vals.length - 1) := by
  obtain ⟨i, hi, rfl⟩ := List.getElem_of_mem hv
  have hvalue := getElem?_eq_valueAt hi
  rw [List.getElem?_eq_getElem hi, Option.some.injEq] at hvalue
  rw [hvalue]
  exact ⟨monotone_valueAt h (Nat.zero_le i), monotone_valueAt h (by omega)⟩

/-- The percentiles of a list: there are values among its own, the least and the greatest
at 0 and at 100, and they do not fall in between. -/
structure IsQuantile (values : List (Option ℚ)) (quantile : ℚ → ℚ) : Prop where
  percentile_eq : ∀ p, 0 ≤ p → p ≤ 100 → percentile values p = some (some (quantile p))
  monotoneOn : MonotoneOn quantile (Set.Icc 0 100)
  isLeast : IsLeast {v | some v ∈ values} (quantile 0)
  isGreatest : IsGreatest {v | some v ∈ values} (quantile 100)

/-- What `percentile` answers, where it does. -/
def quantile (values : List (Option ℚ)) (p : ℚ) : ℚ :=
  interpolate (valueAt (sortedVals values)) (position (sortedVals values).length p)

theorem mem_sortedVals {v : ℚ} : v ∈ sortedVals values ↔ some v ∈ values := by
  simp [sortedVals]

theorem pairwise_sortedVals (values : List (Option ℚ)) : (sortedVals values).Pairwise (· ≤ ·) :=
  List.pairwise_insertionSort _ _

theorem valueAt_mem (hvals : vals ≠ []) (n : Nat) : valueAt vals n ∈ vals := by
  have hpos := List.length_pos_iff.mpr hvals
  rw [valueAt_eq_getElem n (by omega)]
  exact List.getElem_mem _

theorem quantile_zero (values : List (Option ℚ)) :
    quantile values 0 = valueAt (sortedVals values) 0 := by
  have hposition : position (sortedVals values).length 0 = (0 : Nat) := by simp [position]
  rw [quantile, hposition, interpolate_natCast]

theorem quantile_hundred (h : values.filterMap id ≠ []) :
    quantile values 100 = valueAt (sortedVals values) ((sortedVals values).length - 1) := by
  have hpos := List.length_pos_iff.mpr (sortedVals_ne_nil h)
  have hposition : position (sortedVals values).length 100 =
      ((sortedVals values).length - 1 : Nat) := by
    rw [position]
    push_cast [hpos]
    ring
  rw [quantile, hposition, interpolate_natCast]

theorem isQuantile (h : values.filterMap id ≠ []) : IsQuantile values (quantile values) where
  percentile_eq p hp hp' := percentile_eq h hp hp'
  monotoneOn p hp q _ hpq := by
    have hpos := List.length_pos_iff.mpr (sortedVals_ne_nil h)
    exact interpolate_mono (monotone_valueAt (pairwise_sortedVals values))
      (position_bounds hpos hp.1 hp.2).1 (position_mono hpos hpq)
  isLeast := by
    rw [quantile_zero]
    refine ⟨mem_sortedVals.mp (valueAt_mem (sortedVals_ne_nil h) 0), fun v hv => ?_⟩
    exact (valueAt_bounds (pairwise_sortedVals values) (mem_sortedVals.mpr hv)).1
  isGreatest := by
    rw [quantile_hundred h]
    refine ⟨mem_sortedVals.mp (valueAt_mem (sortedVals_ne_nil h) _), fun v hv => ?_⟩
    exact (valueAt_bounds (pairwise_sortedVals values) (mem_sortedVals.mpr hv)).2

/-- Values that are nowhere smaller have percentiles that are nowhere smaller. -/
theorem quantile_le_quantile (h : values.filterMap id ≠ [])
    (hle : List.Forall₂ (· ≤ ·) (values.filterMap id) (values'.filterMap id))
    (hp : 0 ≤ p) (hp' : p ≤ 100) : quantile values p ≤ quantile values' p := by
  have hsorted : List.Forall₂ (· ≤ ·) (sortedVals values) (sortedVals values') :=
    forall₂_insertionSort hle
  have hpos := List.length_pos_iff.mpr (sortedVals_ne_nil h)
  rw [quantile, quantile, ← hsorted.length_eq]
  exact interpolate_mono_left (valueAt_le_valueAt hsorted) (position_bounds hpos hp hp').1

theorem percentile_congr (h : values.Perm values') (p : ℚ) :
    percentile values p = percentile values' p := by
  have hsorted : sortedVals values = sortedVals values' := insertionSort_congr (h.filterMap id)
  simp only [percentile, hsorted]

/-! ## What is reported -/

theorem mem_keys_gwstatSample {key : Bytes} (h : key ∈ gwstatNames) (m : Regex.Captures) :
    key ∈ (gwstatSample m).map Prod.fst := by
  apply Dict.mem_keys_set
  apply Dict.mem_keys_set
  apply Dict.mem_keys_set
  rw [List.map_map]
  exact List.mem_map.mpr ⟨key, h, rfl⟩

/-- Every sample of a log has every key. -/
theorem values_parseGwstatLog {key : Bytes} (h : key ∈ gwstatNames) (lines : List Bytes)
    (warmupS : ℚ) :
    ∃ vals, ((parseGwstatLog lines warmupS).mapM fun s => s.get? key) = some vals := by
  refine Option.isSome_iff_exists.mp (mapM_isSome.mpr fun s hs => ?_)
  obtain ⟨line, _, hline⟩ := List.mem_filterMap.mp hs
  obtain ⟨m, _, hm⟩ := Option.bind_eq_some_iff.mp hline
  dsimp only at hm
  split at hm
  next =>
    cases hm
    exact Option.isSome_iff_ne_none.mpr (Dict.get?_ne_none (mem_keys_gwstatSample h m))
  next => cases hm

theorem avgCommitVals_parseGwstatLog (lines : List Bytes) (warmupS : ℚ) :
    ∃ vals, avgCommitVals (parseGwstatLog lines warmupS) = some vals :=
  values_parseGwstatLog (by decide) lines warmupS

/-- Both are `nan`, or the one is not above the other. -/
theorem p95_le_p99 (lines : List Bytes) (warmupS : ℚ) :
    let samples := parseGwstatLog lines warmupS
    (p95IntervalAvgCommitMs samples = some none ∧ p99IntervalAvgCommitMs samples = some none) ∨
      ∃ x y, p95IntervalAvgCommitMs samples = some (some x) ∧
        p99IntervalAvgCommitMs samples = some (some y) ∧ x ≤ y := by
  obtain ⟨vals, hvals⟩ := avgCommitVals_parseGwstatLog lines warmupS
  simp only [p95IntervalAvgCommitMs, p99IntervalAvgCommitMs, hvals, Option.bind_some]
  by_cases h : vals.filterMap id = []
  · exact .inl ⟨percentile_of_nil h 95, percentile_of_nil h 99⟩
  · have hquantile := isQuantile h
    refine .inr ⟨_, _, hquantile.percentile_eq 95 (by norm_num) (by norm_num),
      hquantile.percentile_eq 99 (by norm_num) (by norm_num), ?_⟩
    exact hquantile.monotoneOn (by norm_num) (by norm_num) (by norm_num)

/-- **The laws of percentiles.** The list has a number among its values, and `nan` or `None` in
any other place; the arithmetic is exact. The order of the values makes no difference. There is
a quantile function that the answers are values of, and a list with values no smaller, one by
one, has one that is no smaller at any percentage from 0 to 100. The two indexes that
`percentile` looks up are then within the sorted list, so no `IndexError` comes up. And of every
log, the 95th percentile that is reported is not above the 99th, or both are `nan`. -/
theorem percentile_laws (values : List (Option ℚ)) (h : values.filterMap id ≠ []) :
    (∀ values', values.Perm values' → ∀ p, percentile values' p = percentile values p) ∧
    (∃ quantile, IsQuantile values quantile ∧
      ∀ values', List.Forall₂ (· ≤ ·) (values.filterMap id) (values'.filterMap id) →
        ∃ quantile', IsQuantile values' quantile' ∧
          ∀ p, 0 ≤ p → p ≤ 100 → quantile p ≤ quantile' p) ∧
    (∀ p, 0 ≤ p → p ≤ 100 →
      let k := position (sortedVals values).length p
      0 ≤ ⌊k⌋ ∧ ⌈k⌉ < (sortedVals values).length) ∧
    ∀ (lines : List Bytes) (warmupS : ℚ), let samples := parseGwstatLog lines warmupS
      (p95IntervalAvgCommitMs samples = some none ∧ p99IntervalAvgCommitMs samples = some none) ∨
        ∃ x y, p95IntervalAvgCommitMs samples = some (some x) ∧
          p99IntervalAvgCommitMs samples = some (some y) ∧ x ≤ y := by
  refine ⟨fun values' hperm p => (percentile_congr hperm p).symm,
    ⟨quantile values, isQuantile h, fun values' hle => ?_⟩,
    fun p hp hp' => indexes_bounds (sortedVals_ne_nil h) hp hp', p95_le_p99⟩
  have h' : values'.filterMap id ≠ [] := by
    intro hnil
    rw [hnil] at hle
    exact h (List.forall₂_nil_right_iff.mp hle)
  exact ⟨quantile values', isQuantile h', fun p => quantile_le_quantile h hle⟩

theorem percentile_laws_three :
    ∃ quantile, IsQuantile [some 3, none, some 1, some 2] quantile :=
  let ⟨_, ⟨quantile, hquantile, _⟩, _⟩ :=
    percentile_laws [some 3, none, some 1, some 2] (by decide)
  ⟨quantile, hquantile⟩

end TelemetryTestbed.Analysis
