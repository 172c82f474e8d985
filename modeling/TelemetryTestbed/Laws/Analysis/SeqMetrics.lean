import TelemetryTestbed.Analysis.SeqMetrics
import TelemetryTestbed.Lib.Adjacent

/-!
# The sequence metrics agree

The scan counts the neighbours that decrease or are equal, SQL counts the distinct values:
what the metrics say of each other is what neighbours say of distinct elements. The
conversions to `float` keep the counts of a table of fewer than 2^53 rows; the span is
kept for values that lie below 2^53.

The laws on lists are those of neighbours and distinct elements in the library. The doubles
come in at the end: a count below 2^53 is its own double, so comparing two metrics is
comparing two counts, and the difference of two such doubles is exact.
-/

namespace TelemetryTestbed.Analysis

open Lib Lib.Double

variable {table : List SeqRow} {l l' : List Int}

/-! ## The scan -/

theorem foldl_next (l : List Int) (d e : Nat) (a : Int) :
    ∃ last, (l.map some).foldl SeqScan.next ⟨d, e, some a⟩ =
      ⟨d + adjacent (fun a b => b < a) (a :: l), e + adjacent (fun a b => a = b) (a :: l), last⟩ := by
  induction l generalizing d e a with
  | nil => exact ⟨some a, rfl⟩
  | cons b l ih =>
    have hnext : SeqScan.next ⟨d, e, some a⟩ (some b) =
        ⟨d + (if b < a then 1 else 0), e + (if a = b then 1 else 0), some b⟩ := by
      by_cases hlt : b < a <;> by_cases heq : b = a <;>
        simp [SeqScan.next, hlt, heq, eq_comm (a := a) (b := b)]
    obtain ⟨last, hfold⟩ := ih (d + if b < a then 1 else 0) (e + if a = b then 1 else 0) b
    refine ⟨last, ?_⟩
    rw [List.map_cons, List.foldl_cons, hnext, hfold]
    simp [adjacent, Nat.add_assoc]

/-- The scan counts neighbours. -/
theorem scanSeqs_eq (l : List Int) :
    (scanSeqs (l.map some)).seqDecrease = adjacent (fun a b => b < a) l ∧
      (scanSeqs (l.map some)).seqEqual = adjacent (fun a b => a = b) l := by
  cases l with
  | nil => exact ⟨rfl, rfl⟩
  | cons a l =>
    obtain ⟨last, hfold⟩ := foldl_next l 0 0 a
    have hscan : scanSeqs ((a :: l).map some) =
        (l.map some).foldl SeqScan.next ⟨0, 0, some a⟩ := rfl
    rw [hscan, hfold]
    exact ⟨Nat.zero_add _, Nat.zero_add _⟩

/-! ## The aggregates -/

theorem filterMap_map_some (l : List Int) : (l.map some).filterMap id = l := by simp

theorem exists_map_some {seqs : List (Option Int)} (h : ∀ seq ∈ seqs, seq ≠ none) :
    ∃ l : List Int, seqs = l.map some := by
  induction seqs with
  | nil => exact ⟨[], rfl⟩
  | cons seq seqs ih =>
    obtain ⟨l, rfl⟩ := ih fun s hs => h s (List.mem_cons_of_mem _ hs)
    obtain ⟨a, rfl⟩ := Option.ne_none_iff_exists'.mp (h seq List.mem_cons_self)
    exact ⟨a :: l, rfl⟩

theorem adjacent_le_length {α : Type*} (r : α → α → Bool) (l : List α) :
    adjacent r l ≤ l.length := by
  induction l with
  | nil => exact le_rfl
  | cons a l ih =>
    cases l with
    | nil => exact Nat.zero_le _
    | cons b l =>
      rw [adjacent, List.length_cons]
      split <;> omega

/-- The metrics of a table without NULL are those of the values `l`, and the scan's those of
their arrangement `l'`. -/
theorem analyzeDb_eq (hne : table ≠ []) (hseq : ∀ r ∈ table, r.seq ≠ none) :
    ∃ l l' : List Int, l'.Perm l ∧ l.length = table.length ∧
      (∀ s, s ∈ l ↔ ∃ r ∈ table, r.seq = some s) ∧
      analyzeDb table =
        { rows := ofNat l.length
          seqMin := ofInt (l.min?.getD 0)
          seqMax := ofInt (l.max?.getD 0)
          seqSpan := (ofInt (l.max?.getD 0)).sub (ofInt (l.min?.getD 0))
          seqDistinct := ofNat l.dedup.length
          seqDuplicateRows := ((ofNat l.length).sub (ofNat l.dedup.length)).max0
          seqDecreaseCount := ofNat (adjacent (fun a b => b < a) l')
          seqEqualAdjacentCount := ofNat (adjacent (fun a b => a = b) l') } := by
  have hmap : ∀ seq ∈ table.map SeqRow.seq, seq ≠ none := by simpa using hseq
  obtain ⟨l, hl⟩ := exists_map_some hmap
  have hperm := (List.perm_insertionSort SeqRow.Before table).map SeqRow.seq
  obtain ⟨l', hl'⟩ := exists_map_some fun seq hs => hmap seq (hperm.mem_iff.mp hs)
  rw [hl, hl'] at hperm
  have hperm' := hperm.filterMap id
  rw [filterMap_map_some, filterMap_map_some] at hperm'
  have hlength : l.length = table.length := by simpa using (congrArg List.length hl).symm
  refine ⟨l, l', hperm', hlength, fun s => ?_, ?_⟩
  · have hmem : some s ∈ table.map SeqRow.seq ↔ some s ∈ l.map some := by rw [hl]
    simpa [eq_comm] using hmem.symm
  · have hzero : table.length ≠ 0 := fun h => hne (List.eq_nil_of_length_eq_zero h)
    simp only [analyzeDb, if_neg hzero, hl, hl', sqlMin, sqlMax, sqlCountDistinct,
      filterMap_map_some, (scanSeqs_eq l').1, (scanSeqs_eq l').2, hlength]

/-- The duplicates are what the distinct values leave of the rows. -/
theorem toRat_duplicateRows (hrows : l.length < 2 ^ 53) :
    (((ofNat l.length).sub (ofNat l.dedup.length)).max0).toRat =
      ((l.length - l.dedup.length : Nat) : ℚ) := by
  have hle : l.dedup.length ≤ l.length := (List.dedup_sublist l).length_le
  have hsub : (ofNat l.length).toRat - (ofNat l.dedup.length).toRat =
      ((l.length - l.dedup.length : Nat) : Int) := by
    rw [toRat_ofNat hrows, toRat_ofNat (hle.trans_lt hrows)]
    push_cast [hle]
    rfl
  rw [toRat_max0, toRat_sub (isFinite_ofNat _) (isFinite_ofNat _) (by omega) hsub]
  simp

theorem length_dedup_le_toRat_span (hne : l ≠ []) (hrows : l.length < 2 ^ 53)
    (hsafe : ∀ s ∈ l, s.natAbs < 2 ^ 53) :
    (l.dedup.length : ℚ) ≤
      ((ofInt (l.max?.getD 0)).sub (ofInt (l.min?.getD 0))).toRat + 1 := by
  obtain ⟨lo, hlo⟩ := Option.isSome_iff_exists.mp (List.isSome_min?_of_ne_nil hne)
  obtain ⟨hi, hhi⟩ := Option.isSome_iff_exists.mp (List.isSome_max?_of_ne_nil hne)
  have hmin := List.min?_eq_some_iff.mp hlo
  have hmax := List.max?_eq_some_iff.mp hhi
  have hle : lo ≤ hi := hmin.2 hi hmax.1
  have hspan := length_dedup_le_span (fun x hx => ⟨hmin.2 x hx, hmax.2 x hx⟩) hle
  have hdedup : l.dedup.length ≤ l.length := (List.dedup_sublist l).length_le
  have hsub : (ofInt hi).toRat - (ofInt lo).toRat = ((hi - lo : Int) : ℚ) := by
    rw [toRat_ofInt (hsafe hi hmax.1), toRat_ofInt (hsafe lo hmin.1), Int.cast_sub]
  rw [hlo, hhi, Option.getD_some, Option.getD_some]
  rcases lt_or_ge (hi - lo) (2 ^ 53) with hlt | hge
  · rw [toRat_sub (isFinite_ofInt hi) (isFinite_ofInt lo) (by omega) hsub]
    exact_mod_cast hspan
  · -- the span may round, but not below the number of rows there can be
    have hround := le_toRat_sub (isFinite_ofInt hi) (isFinite_ofInt lo) hge hsub
    have hcount : (l.dedup.length : ℚ) ≤ 2 ^ 53 := by exact_mod_cast (hdedup.trans_lt hrows).le
    exact hcount.trans (hround.trans (le_add_of_nonneg_right zero_le_one))

/-! ## The metrics among themselves -/

/-- The metrics are numbers. -/
structure SeqMetrics.AllFinite (m : SeqMetrics) : Prop where
  rows : m.rows.IsFinite
  seqMin : m.seqMin.IsFinite
  seqMax : m.seqMax.IsFinite
  seqSpan : m.seqSpan.IsFinite
  seqDistinct : m.seqDistinct.IsFinite
  seqDuplicateRows : m.seqDuplicateRows.IsFinite
  seqDecreaseCount : m.seqDecreaseCount.IsFinite
  seqEqualAdjacentCount : m.seqEqualAdjacentCount.IsFinite

/-- **The sequence metrics agree with each other.** The table is not empty, has fewer than 2^53
rows and no NULL in `seq`; the metrics are the doubles that `analyze_db` makes of it. All of
them are finite. Equal neighbours are no more than duplicates; the distinct numbers are no more
than the span and one, if the numbers lie below 2^53, where every one of them is a double; where
no neighbour decreases, the duplicates are exactly the equal neighbours; and more duplicates
than equal neighbours mean that some neighbour decreases. -/
theorem analyzeDb_consistent (table : List SeqRow) (hne : table ≠ [])
    (hseq : ∀ r ∈ table, r.seq ≠ none) (hrows : table.length < 2 ^ 53) :
    let m := analyzeDb table
    m.AllFinite ∧
      m.seqEqualAdjacentCount.toRat ≤ m.seqDuplicateRows.toRat ∧
      ((∀ r ∈ table, ∀ s, r.seq = some s → s.natAbs < 2 ^ 53) →
        m.seqDistinct.toRat ≤ m.seqSpan.toRat + 1) ∧
      (m.seqDecreaseCount.toRat = 0 → m.seqDuplicateRows.toRat = m.seqEqualAdjacentCount.toRat) ∧
      (m.seqEqualAdjacentCount.toRat < m.seqDuplicateRows.toRat →
        0 < m.seqDecreaseCount.toRat) := by
  obtain ⟨l, l', hperm, hlength, hmem, heq⟩ := analyzeDb_eq hne hseq
  have hl : l ≠ [] := by
    rintro rfl
    exact hne (List.eq_nil_of_length_eq_zero hlength.symm)
  rw [← hlength] at hrows
  have hrows' : l'.length < 2 ^ 53 := hperm.length_eq ▸ hrows
  have hdedup : l'.dedup.length = l.dedup.length := hperm.dedup.length_eq
  have hdecrease := toRat_ofNat ((adjacent_le_length (fun a b => b < a) l').trans_lt hrows')
  have hequal := toRat_ofNat ((adjacent_le_length (fun a b => a = b) l').trans_lt hrows')
  have hdistinct := toRat_ofNat ((List.dedup_sublist l).length_le.trans_lt hrows)
  have hduplicates := toRat_duplicateRows hrows
  have hle := length_dedup_add_adjacent_le l'
  rw [hdedup, hperm.length_eq] at hle
  have hsorted : adjacent (fun a b => b < a) l' = 0 →
      l.length - l.dedup.length = adjacent (fun a b => a = b) l' := by
    intro hzero
    have := length_dedup_add_adjacent (pairwise_of_adjacent_eq_zero hzero)
    rw [hdedup, hperm.length_eq] at this
    omega
  simp only [heq, hdecrease, hequal, hdistinct, hduplicates]
  refine ⟨⟨isFinite_ofNat _, isFinite_ofInt _, isFinite_ofInt _,
      isFinite_sub (isFinite_ofInt _) (isFinite_ofInt _), isFinite_ofNat _,
      isFinite_max0 (isFinite_sub (isFinite_ofNat _) (isFinite_ofNat _)), isFinite_ofNat _,
      isFinite_ofNat _⟩, ?_, ?_, ?_, ?_⟩
  · exact_mod_cast (by omega : adjacent (fun a b => a = b) l' ≤ l.length - l.dedup.length)
  · intro hsafe
    refine length_dedup_le_toRat_span hl hrows fun s hs => ?_
    obtain ⟨r, hr, hrs⟩ := (hmem s).mp hs
    exact hsafe r hr s hrs
  · intro hzero
    exact_mod_cast hsorted (by exact_mod_cast hzero)
  · intro hlt
    rw [Nat.cast_pos, Nat.pos_iff_ne_zero]
    intro hzero
    rw [hsorted hzero] at hlt
    exact lt_irrefl _ hlt

theorem analyzeDb_consistent_three :
    let m := analyzeDb [⟨1, 10, some 5⟩, ⟨2, 20, some 7⟩, ⟨3, 30, some 5⟩]
    m.seqEqualAdjacentCount.toRat < m.seqDuplicateRows.toRat → 0 < m.seqDecreaseCount.toRat :=
  (analyzeDb_consistent [⟨1, 10, some 5⟩, ⟨2, 20, some 7⟩, ⟨3, 30, some 5⟩] (by decide)
    (by decide) (by decide)).2.2.2.2

/-- Two neighbours from 2^53 on become the same `float`, and the span between them zero. -/
theorem analyzeDb_span_rounded :
    let m := analyzeDb [⟨1, 10, some (2 ^ 53)⟩, ⟨2, 20, some (2 ^ 53 + 1)⟩]
    m.seqSpan = .fin false 0 0 ∧ m.seqDistinct = .ofNat 2 ∧
      ¬ m.seqDistinct.toRat ≤ m.seqSpan.toRat + 1 := by
  have hspan : (analyzeDb [⟨1, 10, some (2 ^ 53)⟩, ⟨2, 20, some (2 ^ 53 + 1)⟩]).seqSpan =
      .fin false 0 0 := by decide
  have hdistinct : (analyzeDb [⟨1, 10, some (2 ^ 53)⟩, ⟨2, 20, some (2 ^ 53 + 1)⟩]).seqDistinct =
      .ofNat 2 := by decide
  refine ⟨hspan, hdistinct, ?_⟩
  rw [hspan, hdistinct, toRat_ofNat (by decide)]
  norm_num [toRat, signed]

end TelemetryTestbed.Analysis
