import TelemetryTestbed.Analysis.Tables
import TelemetryTestbed.Laws.Experiments.Manifest
import TelemetryTestbed.Lib.Traversal
import Mathlib.Data.List.Nodup

/-!
# A table is read back

`write_csv` takes the keys of all rows for its columns, so no row has a key too many, and
a row without one of them gets an empty field there. What `csv.DictReader` makes of the
file is the rows again, each with all columns.

The limit on a field is counted in characters and the model has bytes, so both directions of
the law go through the count of characters of the UTF-8 texts. One field over the limit is
enough for the reader to give up the whole file, also when it stands in the header.
-/

namespace TelemetryTestbed.Analysis

open Lib

/-! ## The columns -/

theorem addKeys_spec (keys : List Bytes) (row : TableRow) (h : keys.Nodup) :
    (addKeys keys row).Nodup ∧
      ∀ key, key ∈ addKeys keys row ↔ key ∈ keys ∨ key ∈ row.map Prod.fst := by
  induction row generalizing keys with
  | nil => exact ⟨h, fun key => by simp [addKeys]⟩
  | cons item row ih =>
    have hstep : addKeys keys (item :: row) =
        addKeys (if item.1 ∈ keys then keys else keys ++ [item.1]) row := rfl
    rw [hstep]
    split
    next hmem =>
      obtain ⟨hnodup, hkeys⟩ := ih keys h
      refine ⟨hnodup, fun key => ?_⟩
      rw [hkeys, List.map_cons, List.mem_cons]
      constructor
      · rintro (hk | hk)
        · exact Or.inl hk
        · exact Or.inr (Or.inr hk)
      · rintro (hk | rfl | hk)
        · exact Or.inl hk
        · exact Or.inl hmem
        · exact Or.inr hk
    next hmem =>
      obtain ⟨hnodup, hkeys⟩ := ih (keys ++ [item.1]) (List.nodup_append'.mpr
        ⟨h, List.nodup_singleton _, List.disjoint_singleton.mpr hmem⟩)
      refine ⟨hnodup, fun key => ?_⟩
      rw [hkeys, List.mem_append, List.mem_singleton, List.map_cons, List.mem_cons, or_assoc]

theorem columns_spec (rows : List TableRow) :
    (columns rows).Nodup ∧
      ∀ key, key ∈ columns rows ↔ ∃ row ∈ rows, key ∈ row.map Prod.fst := by
  have hfold : ∀ (rows : List TableRow) (keys : List Bytes), keys.Nodup →
      (rows.foldl addKeys keys).Nodup ∧ ∀ key, key ∈ rows.foldl addKeys keys ↔
        key ∈ keys ∨ ∃ row ∈ rows, key ∈ row.map Prod.fst := by
    intro rows
    induction rows with
    | nil => exact fun keys h => ⟨h, fun key => by simp⟩
    | cons row rows ih =>
      intro keys h
      obtain ⟨hrow, hmem⟩ := addKeys_spec keys row h
      obtain ⟨hnodup, hkeys⟩ := ih (addKeys keys row) hrow
      refine ⟨hnodup, fun key => ?_⟩
      rw [List.foldl_cons, hkeys, hmem, List.exists_mem_cons_iff, or_assoc]
  obtain ⟨hnodup, hkeys⟩ := hfold rows [] List.nodup_nil
  refine ⟨hnodup, fun key => ?_⟩
  rw [columns, hkeys]
  simp

/-! ## The round trip -/

/-- A row with every column. -/
def fullRow (names : List Bytes) (row : TableRow) : List Bytes :=
  names.map fun key => (row.get? key).getD []

theorem dictToList_columns {rows : List TableRow} {row : TableRow} (h : row ∈ rows) :
    dictToList (columns rows) row = some (fullRow (columns rows) row) := by
  refine if_pos (List.all_eq_true.mpr fun item hitem => decide_eq_true ?_)
  exact ((columns_spec rows).2 item.1).mpr ⟨row, h, List.mem_map_of_mem hitem⟩

/-- A row with a field for each column. -/
theorem dictRow_full {names values : List Bytes} (hnodup : names.Nodup)
    (hlen : values.length = names.length) :
    dictRow names values = (names.map some).zip (values.map Cell.text) := by
  have hkeys : (((names.map some).zip (values.map Cell.text)).map Prod.fst).Nodup := by
    rw [List.map_fst_zip (by simp [hlen])]
    exact hnodup.map (Option.some_injective _)
  rw [dictRow, if_neg (by omega), List.drop_eq_nil_of_le (by omega)]
  exact Dict.ofItems_of_nodup hkeys

theorem fullRow_length (names : List Bytes) (row : TableRow) :
    (fullRow names row).length = names.length := List.length_map _

theorem isUtf8_fullRow {names : List Bytes} {row : TableRow} (h : ∀ item ∈ row, IsUtf8 item.2) :
    ∀ value ∈ fullRow names row, IsUtf8 value := by
  intro value hvalue
  obtain ⟨key, -, rfl⟩ := List.mem_map.mp hvalue
  cases hget : row.get? key with
  | none => exact isUtf8_nil
  | some value =>
    obtain ⟨item, hitem, rfl⟩ := Option.map_eq_some_iff.mp hget
    exact h item (List.mem_of_find?_eq_some hitem)

/-- To double the quotes of a field splits no character. -/
theorem isUtf8_spell {x : Bytes} (h : IsUtf8 x) : IsUtf8 (Csv.spell excel x) := by
  unfold Csv.spell
  split
  · rw [← Experiments.csvEscape_eq]
    exact Experiments.isUtf8_csvEscape h
  · exact h

theorem isUtf8_writeRow {r : List Bytes} (h : ∀ x ∈ r, IsUtf8 x) :
    IsUtf8 (Csv.writeRow excel r) := by
  refine isUtf8_append ?_ (isUtf8_of_ascii (by decide))
  split
  · exact isUtf8_of_ascii (by decide)
  · refine Experiments.isUtf8_join fun t ht => ?_
    obtain ⟨x, hx, rfl⟩ := List.mem_map.mp ht
    exact isUtf8_spell (h x hx)

/-- No key and no value is longer than the reader's limit. -/
def WithinLimit (rows : List TableRow) : Prop :=
  ∀ row ∈ rows, ∀ item ∈ row, charCount item.1 ≤ fieldSizeLimit ∧
    charCount ((row.get? item.1).getD []) ≤ fieldSizeLimit

instance : DecidablePred WithinLimit := fun rows =>
  inferInstanceAs (Decidable (∀ row ∈ rows, ∀ item ∈ row, charCount item.1 ≤ fieldSizeLimit ∧
    charCount ((row.get? item.1).getD []) ≤ fieldSizeLimit))

/-- The fields of the file are the keys, the values, and empty ones. -/
theorem records_fit_iff (rows : List TableRow) :
    (∀ r ∈ columns rows :: rows.map (fullRow (columns rows)), ∀ x ∈ r,
      charCount x ≤ fieldSizeLimit) ↔ WithinLimit rows := by
  obtain ⟨-, hmem⟩ := columns_spec rows
  rw [List.forall_mem_cons, List.forall_mem_map]
  constructor
  · rintro ⟨hkeys, hvalues⟩ row hrow item hitem
    have hkey : item.1 ∈ columns rows :=
      (hmem item.1).mpr ⟨row, hrow, List.mem_map_of_mem hitem⟩
    exact ⟨hkeys item.1 hkey, hvalues row hrow _ (List.mem_map_of_mem hkey)⟩
  · intro h
    refine ⟨fun key hkey => ?_, fun row hrow x hx => ?_⟩
    · obtain ⟨row, hrow, hin⟩ := (hmem key).mp hkey
      obtain ⟨item, hitem, rfl⟩ := List.mem_map.mp hin
      exact (h row hrow item hitem).1
    · obtain ⟨key, -, rfl⟩ := List.mem_map.mp hx
      by_cases hkey : key ∈ row.map Prod.fst
      · obtain ⟨item, hitem, rfl⟩ := List.mem_map.mp hkey
        exact (h row hrow item hitem).2
      · have hnone : row.get? key = none := by
          rw [Dict.get?, Option.map_eq_none_iff, List.find?_eq_none]
          intro item hitem hfound
          exact hkey (of_decide_eq_true hfound ▸ List.mem_map_of_mem hitem)
        rw [hnone]
        exact Nat.zero_le _

/-- **What is written is read back**, where nothing in it is longer than the 131072 characters
that the `csv` module reads into a field: the same rows in their order, each with all columns
of the table, its own values under its keys and the empty text elsewhere. One text that is
longer, and the file cannot be read at all. -/
theorem readManifest_writeCsv {rows : List TableRow} (hkeys : ∃ row ∈ rows, row ≠ [])
    (hutf8 : ∀ row ∈ rows, ∀ item ∈ row, IsUtf8 item.1 ∧ IsUtf8 item.2) :
    (WithinLimit rows → (writeCsv rows none).bind readManifest = some (rows.map fun row =>
      (columns rows).map fun key => (some key, Cell.text ((row.get? key).getD [])))) ∧
    (¬ WithinLimit rows → (writeCsv rows none).bind readManifest = none) := by
  obtain ⟨hnodup, hmem⟩ := columns_spec rows
  have hnames : columns rows ≠ [] := by
    obtain ⟨row, hrow, hne⟩ := hkeys
    obtain ⟨item, items, rfl⟩ := List.exists_cons_of_ne_nil hne
    exact List.ne_nil_of_mem ((hmem item.1).mpr ⟨_, hrow, List.mem_cons_self⟩)
  have hfull : ∀ row, fullRow (columns rows) row ≠ [] := fun row =>
    List.map_eq_nil_iff.not.mpr hnames
  -- no row has a key too many
  have hrecords := mapM_eq_some_map fun row (hrow : row ∈ rows) => dictToList_columns hrow
  have htext : writeCsv rows none = some ((columns rows ::
      rows.map (fullRow (columns rows))).flatMap (Csv.writeRow excel)) := by
    rw [writeCsv, hrecords, Option.map_some]
  have hread : Csv.read excel ((columns rows :: rows.map (fullRow (columns rows))).flatMap
      (Csv.writeRow excel)) = some (columns rows :: rows.map (fullRow (columns rows))) := by
    refine Csv.read_writeRow (List.forall_mem_cons.mpr ⟨hnames, fun r hr => ?_⟩)
    obtain ⟨row, -, rfl⟩ := List.mem_map.mp hr
    exact hfull row
  have hvalid : IsUtf8 ((columns rows :: rows.map (fullRow (columns rows))).flatMap
      (Csv.writeRow excel)) := by
    refine isUtf8_flatMap (List.forall_mem_cons.mpr ⟨?_, fun r hr => ?_⟩)
    · refine isUtf8_writeRow fun key hkey => ?_
      obtain ⟨row, hrow, hitem⟩ := (hmem key).mp hkey
      obtain ⟨item, hin, rfl⟩ := List.mem_map.mp hitem
      exact (hutf8 row hrow item hin).1
    · obtain ⟨row, hrow, rfl⟩ := List.mem_map.mp hr
      exact isUtf8_writeRow (isUtf8_fullRow fun item hitem => (hutf8 row hrow item hitem).2)
  have hfilter : (rows.map (fullRow (columns rows))).filter (fun row => row ≠ []) =
      rows.map (fullRow (columns rows)) := by
    rw [List.filter_eq_self]
    intro r hr
    obtain ⟨row, -, rfl⟩ := List.mem_map.mp hr
    exact decide_eq_true (hfull row)
  rw [htext, Option.bind_some, readManifest, if_pos hvalid]
  refine ⟨fun hfit => ?_, fun hlong => ?_⟩
  · rw [Csv.readWithin_of_fit hread ((records_fit_iff rows).mpr hfit), Option.map_some]
    dsimp only
    rw [hfilter, List.map_map]
    refine congrArg some (List.map_congr_left fun row _ => ?_)
    rw [Function.comp_apply, dictRow_full hnodup (fullRow_length _ row), fullRow, List.map_map,
      List.zip_map']
    rfl
  · rw [Csv.readWithin_of_not_fit hread (mt (records_fit_iff rows).mp hlong), Option.map_none]

/-- Rows with different keys, a value with a comma, a quote and a line break. -/
theorem readManifest_writeCsv_mixed :
    (writeCsv [[(ascii "k", ascii "a,b")], [(ascii "j", [34, 13, 10]), (ascii "k", [])]]
      none).bind readManifest =
    some [[(some (ascii "k"), .text (ascii "a,b")), (some (ascii "j"), .text [])],
      [(some (ascii "k"), .text []), (some (ascii "j"), .text [34, 13, 10])]] := by
  have hutf8 : ∀ row ∈ ([[(ascii "k", ascii "a,b")], [(ascii "j", [34, 13, 10]),
      (ascii "k", [])]] : List TableRow), ∀ item ∈ row, IsUtf8 item.1 ∧ IsUtf8 item.2 := by
    have hascii : ∀ row ∈ ([[(ascii "k", ascii "a,b")], [(ascii "j", [34, 13, 10]),
        (ascii "k", [])]] : List TableRow), ∀ item ∈ row, IsAscii item.1 ∧ IsAscii item.2 := by
      decide
    exact fun row hrow item hitem => ⟨isUtf8_of_ascii (hascii row hrow item hitem).1,
      isUtf8_of_ascii (hascii row hrow item hitem).2⟩
  have hread := readManifest_writeCsv ⟨_, List.mem_cons_self, List.cons_ne_nil _ _⟩ hutf8
  rw [hread.1 (by decide)]
  decide

end TelemetryTestbed.Analysis
