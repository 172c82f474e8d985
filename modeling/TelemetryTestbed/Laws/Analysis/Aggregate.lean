import TelemetryTestbed.Analysis.Aggregate

/-!
# The laws of the aggregate

Every configuration that was run has one row, the rows come in the order of the
configurations, and every run is counted in one of them. What a row shows of a metric are
statistics of that metric over the runs of the row (`MetricShown`). In which order the runs
came makes no difference.

The statistics are those of the library, over the values of the metric that are numbers; a run
in which the metric is missing still counts as a run. The columns of all metrics have
different names, by computation, so none overwrites another in its row.
-/

namespace TelemetryTestbed.Analysis

open Lib

variable {sqrt : ℚ → ℚ} {vals : List ℚ} {values values' : List (Option ℚ)}
  {runs runs' rows : List RunRow} {m : Bytes}

/-! ## The statistics of some values -/

/-- What is asked of the square root: the root of a variance is zero where the variance is,
and never negative. -/
structure RootOfVariance (sqrt : ℚ → ℚ) : Prop where
  nonneg : ∀ q, 0 ≤ q → 0 ≤ sqrt q
  eq_zero : ∀ q, 0 ≤ q → (sqrt q = 0 ↔ q = 0)

/-- `a` is the average of the values and lies between the least and the greatest of them,
and the deviation `d` is zero exactly where all of them are the average. -/
structure Spread (vals : List ℚ) (a d lo hi : ℚ) : Prop where
  least : lo ∈ vals ∧ ∀ v ∈ vals, lo ≤ v
  greatest : hi ∈ vals ∧ ∀ v ∈ vals, v ≤ hi
  sum : a * vals.length = vals.sum
  between : lo ≤ a ∧ a ≤ hi
  nonneg : 0 ≤ d
  eq_zero : d = 0 ↔ ∀ v ∈ vals, v = a

/-- The mean, the deviation, the minimum and the maximum of what is a number among the
values; all four are `nan` where nothing is. -/
inductive Summary (vals : List ℚ) : Option ℚ → Option ℚ → Option ℚ → Option ℚ → Prop
  | nan (h : vals = []) : Summary vals none none none none
  | spread {a d lo hi : ℚ} (h : Spread vals a d lo hi) :
      Summary vals (some a) (some d) (some lo) (some hi)

theorem mean_perm (h : (values.filterMap id).Perm (values'.filterMap id)) :
    mean values = mean values' := by
  simp only [mean, average_perm h, ne_eq, ← List.length_eq_zero_iff, h.length_eq]

theorem stdev_perm (h : (values.filterMap id).Perm (values'.filterMap id)) :
    stdev sqrt values = stdev sqrt values' := by
  simp only [stdev, sampleVariance_perm h, h.length_eq]

theorem stdev_eq (hsqrt : RootOfVariance sqrt) (h : values.filterMap id ≠ []) :
    ∃ d, stdev sqrt values = some d ∧ 0 ≤ d ∧
      (d = 0 ↔ ∀ v ∈ values.filterMap id, v = average (values.filterMap id)) := by
  rw [stdev]
  split
  next htwo =>
    have hnonneg := sampleVariance_nonneg htwo
    refine ⟨_, rfl, hsqrt.nonneg _ hnonneg, ?_⟩
    rw [hsqrt.eq_zero _ hnonneg, sampleVariance_eq_zero_iff htwo]
  next htwo =>
    -- one value is its own average
    obtain ⟨v, hone⟩ : ∃ v, values.filterMap id = [v] := by
      apply List.length_eq_one_iff.mp
      have := List.length_pos_iff.mpr h
      omega
    rw [hone]
    refine ⟨0, rfl, le_rfl, iff_of_true rfl fun w hw => ?_⟩
    rw [List.mem_singleton.mp hw]
    simp [average]

theorem summary (hsqrt : RootOfVariance sqrt) (values : List (Option ℚ)) :
    Summary (values.filterMap id) (mean values) (stdev sqrt values) (values.filterMap id).min?
      (values.filterMap id).max? := by
  by_cases hnil : values.filterMap id = []
  · simp only [mean, stdev, hnil]
    exact .nan rfl
  · obtain ⟨d, hd, hnonneg, hzero⟩ := stdev_eq hsqrt hnil
    obtain ⟨lo, hlo⟩ := Option.isSome_iff_exists.mp (List.isSome_min?_of_ne_nil hnil)
    obtain ⟨hi, hhi⟩ := Option.isSome_iff_exists.mp (List.isSome_max?_of_ne_nil hnil)
    have hleast := List.min?_eq_some_iff.mp hlo
    have hgreatest := List.max?_eq_some_iff.mp hhi
    rw [hd, hlo, hhi, mean, if_pos hnil]
    exact .spread
      { least := hleast
        greatest := hgreatest
        sum := average_mul_length hnil
        between := ⟨le_average hnil hleast.2, average_le hnil hgreatest.2⟩
        nonneg := hnonneg
        eq_zero := hzero }

/-! ## A row -/

/-- The columns of one metric stand in the row, each its own, and summarize the values. -/
def MetricShown (columns : Dict Bytes (Option ℚ)) (m : Bytes) (vals : List ℚ) : Prop :=
  ∃ mean sd least greatest, columns.get? (m ++ ascii "_mean") = some mean ∧
    columns.get? (m ++ ascii "_sd") = some sd ∧ columns.get? (m ++ ascii "_min") = some least ∧
    columns.get? (m ++ ascii "_max") = some greatest ∧ Summary vals mean sd least greatest

/-- The names of the columns. -/
def columnNames (m : Bytes) : List Bytes :=
  [ascii "_mean", ascii "_sd", ascii "_min", ascii "_max"].map (m ++ ·)

theorem columnNames_nodup : (metrics.flatMap columnNames).Nodup := by decide +kernel

theorem columns_eq (sqrt : ℚ → ℚ) (group : GroupKey × List RunRow) :
    (aggregateGroup sqrt group).columns = metrics.flatMap (metricColumns sqrt group.2) ∧
      ((aggregateGroup sqrt group).columns.map Prod.fst).Nodup := by
  have hnames : (metrics.flatMap (metricColumns sqrt group.2)).map Prod.fst =
      metrics.flatMap columnNames := by rw [List.map_flatMap]; rfl
  have hnodup : ((metrics.flatMap (metricColumns sqrt group.2)).map Prod.fst).Nodup := by
    rw [hnames]
    exact columnNames_nodup
  rw [aggregateGroup, Dict.ofItems_of_nodup hnodup]
  exact ⟨rfl, hnodup⟩

theorem metricShown (hsqrt : RootOfVariance sqrt) (group : GroupKey × List RunRow)
    (hm : m ∈ metrics) :
    MetricShown (aggregateGroup sqrt group).columns m ((metricVals group.2 m).filterMap id) := by
  obtain ⟨hcolumns, hnodup⟩ := columns_eq sqrt group
  have hget : ∀ item ∈ metricColumns sqrt group.2 m,
      (aggregateGroup sqrt group).columns.get? item.1 = some item.2 := by
    intro item hitem
    refine Dict.get?_of_mem_nodup hnodup ?_
    rw [hcolumns]
    exact List.mem_flatMap.mpr ⟨m, hm, hitem⟩
  simp only [metricColumns, List.forall_mem_cons] at hget
  obtain ⟨hmean, hsd, hmin, hmax, -⟩ := hget
  exact ⟨_, _, _, _, hmean, hsd, hmin, hmax, summary hsqrt _⟩

/-! ## The rows -/

theorem sortKey_injective : Function.Injective sortKey := by
  rintro ⟨kind, rate, batch⟩ ⟨kind', rate', batch'⟩ h
  have h := toLex.injective h
  obtain ⟨hkind, hrest⟩ := Prod.mk.inj h
  obtain ⟨rfl, rfl⟩ := Prod.mk.inj (toLex.injective hrest)
  have hinj : Function.Injective UInt8.toNat := fun _ _ => UInt8.toNat_inj.mp
  obtain rfl := List.map_injective_iff.mpr hinj hkind
  rfl

/-- The row of a configuration, from the runs of that configuration. -/
def configRow (sqrt : ℚ → ℚ) (runs : List RunRow) (key : GroupKey) : AggregateRow :=
  aggregateGroup sqrt (key, runs.filter fun r => r.key = key)

theorem aggregate_eq (sqrt : ℚ → ℚ) (runs : List RunRow) :
    aggregate sqrt runs = (Dict.sortedKeys sortKey RunRow.key runs).map (configRow sqrt runs) := by
  rw [aggregate, Dict.insertionSort_group, List.map_map]
  rfl

theorem aggregate_keys (sqrt : ℚ → ℚ) (runs : List RunRow) :
    (aggregate sqrt runs).map AggregateRow.key = Dict.sortedKeys sortKey RunRow.key runs := by
  rw [aggregate_eq, List.map_map]
  exact List.map_id _

theorem sum_nRuns (sqrt : ℚ → ℚ) (runs : List RunRow) :
    ((aggregate sqrt runs).map AggregateRow.nRuns).sum = runs.length := by
  rw [aggregate, List.map_map, ← Dict.sum_length_group RunRow.key runs]
  exact ((List.perm_insertionSort _ _).map _).sum_eq

/-- The runs of a configuration in another order have the same row. -/
theorem configRow_perm (sqrt : ℚ → ℚ) (h : runs.Perm runs') (key : GroupKey) :
    configRow sqrt runs key = configRow sqrt runs' key := by
  have hgroup := h.filter fun r => decide (r.key = key)
  have hcolumns (m : Bytes) :
      metricColumns sqrt (runs.filter fun r => r.key = key) m =
        metricColumns sqrt (runs'.filter fun r => r.key = key) m := by
    have hvals := (hgroup.map fun r => (r.metrics.get? m).join).filterMap id
    simp only [metricColumns, metricVals, mean_perm hvals, stdev_perm hvals, min?_perm hvals,
      max?_perm hvals]
  rw [configRow, configRow, aggregateGroup, aggregateGroup, hgroup.length_eq]
  simp only [funext hcolumns]

/-- **The aggregate summarizes the runs.** The run summaries are any, in any order, with metrics
that are rational numbers or missing, and the square root is any function that is not negative
and zero exactly at zero. The rows come strictly in the order of kind, rate and batch; there is
a row for exactly the configurations that were run; the runs counted in all rows are all runs;
each row shows of each metric the statistics of the metric over its own runs; and another order
of the runs gives the same rows. Python computes the same sums with doubles, in the order of the
runs, and its last digits may depend on it. -/
theorem aggregate_summarizes (hsqrt : RootOfVariance sqrt) (runs : List RunRow) :
    (aggregate sqrt runs).Pairwise (fun a b => sortKey a.key < sortKey b.key) ∧
    (∀ key, key ∈ (aggregate sqrt runs).map AggregateRow.key ↔ key ∈ runs.map RunRow.key) ∧
    ((aggregate sqrt runs).map AggregateRow.nRuns).sum = runs.length ∧
    (∀ row ∈ aggregate sqrt runs,
      let own := runs.filter fun r => r.key = row.key
      row.nRuns = own.length ∧
        ∀ m ∈ metrics, MetricShown row.columns m ((metricVals own m).filterMap id)) ∧
    ∀ runs', runs.Perm runs' → aggregate sqrt runs = aggregate sqrt runs' := by
  refine ⟨?_, fun key => ?_, sum_nRuns sqrt runs, fun row hrow => ?_, fun runs' h => ?_⟩
  · have hstrict : (Dict.sortedKeys sortKey RunRow.key runs).Pairwise
        fun k k' => sortKey k < sortKey k' := Dict.sortedKeys_strict sortKey_injective
    rw [← aggregate_keys sqrt, List.pairwise_map] at hstrict
    exact hstrict
  · rw [aggregate_keys]
    exact Dict.mem_sortedKeys
  · rw [aggregate_eq] at hrow
    obtain ⟨key, -, rfl⟩ := List.mem_map.mp hrow
    exact ⟨rfl, fun m hm => metricShown hsqrt _ hm⟩
  · rw [aggregate_eq, aggregate_eq, Dict.sortedKeys_perm sortKey_injective h]
    exact List.map_congr_left fun key _ => configRow_perm sqrt h key

/-- Four runs of two configurations. The variances are 0 and 1, and so are their roots. -/
theorem aggregate_summarizes_four :
    let run (kind : String) (rows : ℚ) : RunRow :=
      ⟨ascii kind, 50, 10, [(ascii "rows", some rows)]⟩
    let runs := [run "short" 3, run "long" 8, run "short" 1, run "short" 2]
    let rows := aggregate id runs
    rows.map AggregateRow.nRuns = [1, 3] ∧
    rows.map (fun a => a.columns.get? (ascii "rows_mean")) = [some (some 8), some (some 2)] ∧
    rows.map (fun a => a.columns.get? (ascii "rows_sd")) = [some (some 0), some (some 1)] ∧
    rows = aggregate id runs.reverse := by
  intro run runs rows
  have hsqrt : RootOfVariance id := ⟨fun _ h => h, fun _ _ => Iff.rfl⟩
  obtain ⟨-, -, -, -, hperm⟩ := aggregate_summarizes hsqrt runs
  exact ⟨by decide +kernel, by decide +kernel, by decide +kernel,
    hperm _ (List.reverse_perm _).symm⟩

end TelemetryTestbed.Analysis
