import TelemetryTestbed.Persistence.Schema

/-!
# The statements of the migration

Each of them ensures something that no other one undoes: the table, an index, a
column or the version (`ensures_createTable` and the following). The two functions
run them in a fixed order (`realises_migrate`, `realises_upgrade`), whichever of
them fail and wherever the process dies.

A statement that adds a column is answered by an error where the column is there, which the
code looks up first; both together ensure the column. That no statement undoes another one is
by cases on the two statements.
-/

namespace TelemetryTestbed.Persistence

open TelemetryTestbed.Lib

/-! ## Names -/

theorem mem_createdColumns (c : Column) : c ∈ createdColumns := by
  cases c <;> decide

theorem Column.name_injective {c d : Column} (h : c.name = d.name) : c = d := by
  have hall : ∀ c ∈ createdColumns, ∀ d ∈ createdColumns, c.name = d.name → c = d := by
    decide
  exact hall c (mem_createdColumns c) d (mem_createdColumns d) h

theorem columnName_definition (c : Column) : columnName c.definition = c.name := by
  have hall : ∀ c ∈ createdColumns, columnName c.definition = c.name := by decide
  exact hall c (mem_createdColumns c)

theorem find_definition (c : Column) :
    createdColumns.find? (fun d => d.definition = c.definition) = some c := by
  have hall : ∀ c ∈ createdColumns,
      createdColumns.find? (fun d => d.definition = c.definition) = some c := by decide
  exact hall c (mem_createdColumns c)

/-- The columns that both lists ensure. -/
def motorColumns : List Column :=
  [.motor1Id, .motor1Tics, .motor1Rpm, .motor1TemperatureC, .motor1VoltagePowerStageMv,
    .motor1CurrentPowerStageMa,
    .motor2Id, .motor2Tics, .motor2Rpm, .motor2TemperatureC, .motor2VoltagePowerStageMv,
    .motor2CurrentPowerStageMa]

theorem migrateCols_eq : migrateCols = motorColumns.map Column.definition := by decide

theorem upgradeCols_eq : upgradeCols = motorColumns.map Column.definition := by decide

/-! ## What a statement leaves -/

def Db.Has (s : Db) (c : Column) : Prop := ∃ t, s.table = some t ∧ c ∈ t.columns

/-- The table has got columns of the motors, with `NULL` in the rows it had. -/
def Table.Extends (t t' : Table) : Prop :=
  ∃ added, added ⊆ motorColumns ∧ t'.columns = t.columns ++ added ∧
    t'.rows = t.rows.map (· ++ List.replicate added.length .null)

/-- The second database has everything of the first: its table with all rows and columns, its
indexes, and version 2 if that was reached. -/
structure Db.Extends (s s' : Db) : Prop where
  table : ∀ t, s.table = some t → ∃ t', s'.table = some t' ∧ t.Extends t'
  indexes : s.indexes ⊆ s'.indexes
  userVersion : s.userVersion = 2 → s'.userVersion = 2

theorem Table.Extends.refl (t : Table) : t.Extends t := by
  refine ⟨[], List.nil_subset _, (List.append_nil _).symm, ?_⟩
  simp

theorem Table.Extends.trans {t u v : Table} (h : t.Extends u) (h' : u.Extends v) :
    t.Extends v := by
  obtain ⟨added, hmotors, hcols, hrows⟩ := h
  obtain ⟨added', hmotors', hcols', hrows'⟩ := h'
  refine ⟨added ++ added', List.append_subset.mpr ⟨hmotors, hmotors'⟩, ?_, ?_⟩
  · rw [hcols', hcols, List.append_assoc]
  · rw [hrows', hrows, List.map_map, List.length_append, List.replicate_add]
    simp only [Function.comp_def, List.append_assoc]

theorem Db.Extends.refl (s : Db) : s.Extends s where
  table t ht := ⟨t, ht, .refl t⟩
  indexes := List.Subset.refl _
  userVersion h := h

theorem Db.Extends.trans {s u v : Db} (h : s.Extends u) (h' : u.Extends v) : s.Extends v where
  table t ht := by
    obtain ⟨t', ht', hext⟩ := h.table t ht
    obtain ⟨t'', ht'', hext'⟩ := h'.table t' ht'
    exact ⟨t'', ht'', hext.trans hext'⟩
  indexes := List.Subset.trans h.indexes h'.indexes
  userVersion hv := h'.userVersion (h.userVersion hv)

theorem Db.Extends.has {s s' : Db} (h : s.Extends s') {c : Column} (hc : s.Has c) : s'.Has c := by
  obtain ⟨t, ht, hmem⟩ := hc
  obtain ⟨t', ht', added, -, hcols, -⟩ := h.table t ht
  refine ⟨t', ht', ?_⟩
  rw [hcols]
  exact List.mem_append_left _ hmem

/-- A column that a table has got is one of the motors'. -/
theorem Db.Extends.had {s s' : Db} (h : s.Extends s') {c : Column} (htable : s.table ≠ none)
    (hc : s'.Has c) (hmotor : c ∉ motorColumns) : s.Has c := by
  obtain ⟨t, ht⟩ := Option.ne_none_iff_exists'.mp htable
  obtain ⟨t', ht', added, hadded, hcols, -⟩ := h.table t ht
  obtain ⟨t'', ht'', hmem⟩ := hc
  rw [ht'] at ht''
  cases ht''
  rw [hcols] at hmem
  rcases List.mem_append.mp hmem with hmem | hmem
  · exact ⟨t, ht, hmem⟩
  · exact absurd (hadded hmem) hmotor

/-! ## The statements -/

/-- `ensure_column` in one step. -/
def ensured (c : Column) (s : Db) : Option Db :=
  match s.table with
  | some t => if c ∈ t.columns then some s else addColumn c s
  | none => none

theorem ensures_pragma : Ensures Db.Extends some (fun _ => True) where
  settled s _ := rfl
  does s s' h := by
    cases h
    exact ⟨True.intro, .refl s⟩
  kept s s' _ h := h

theorem ensures_createTable : Ensures Db.Extends createTable (fun s => s.table ≠ none) where
  settled s h := by
    obtain ⟨t, ht⟩ := Option.ne_none_iff_exists'.mp h
    unfold createTable
    split
    · rfl
    · next hnone => exact absurd hnone h
  does s s' h := by
    unfold createTable at h
    split at h
    · next t ht =>
      cases h
      exact ⟨by simp [ht], .refl s⟩
    · next hnone =>
      cases h
      refine ⟨by simp, ?_, List.Subset.refl _, fun hv => hv⟩
      intro t ht
      rw [hnone] at ht
      cases ht
  kept s s' h hs := by
    obtain ⟨t, ht⟩ := Option.ne_none_iff_exists'.mp hs
    obtain ⟨t', ht', -⟩ := h.table t ht
    simp [ht']

theorem ensures_createIndex (i : Index) :
    Ensures Db.Extends (createIndex i) (fun s => i ∈ s.indexes) where
  settled s h := if_pos h
  does s s' h := by
    unfold createIndex at h
    split at h
    · next hi =>
      cases h
      exact ⟨hi, .refl s⟩
    · split at h
      · cases h
      · next t ht =>
        split at h
        · cases h
          refine ⟨List.mem_append_right _ List.mem_cons_self, ?_, List.subset_append_left _ _,
            fun hv => hv⟩
          intro u hu
          exact ⟨u, hu, .refl u⟩
        · cases h
  kept s s' h hs := h.indexes hs

theorem ensures_ensured {c : Column} (hc : c ∈ motorColumns) :
    Ensures Db.Extends (ensured c) (fun s => s.Has c) where
  settled s h := by
    obtain ⟨t, ht, hmem⟩ := h
    simp only [ensured, ht, if_pos hmem]
  does s s' h := by
    unfold ensured at h
    split at h
    · next t ht =>
      split at h
      · next hmem =>
        cases h
        exact ⟨⟨t, ht, hmem⟩, .refl s⟩
      · next hmem =>
        unfold addColumn at h
        split at h
        · cases h
        · next u hu =>
          split at h
          · cases h
          · next hnew =>
            cases h
            refine ⟨⟨_, rfl, List.mem_append_right _ List.mem_cons_self⟩, ?_,
              List.Subset.refl _, fun hv => hv⟩
            intro v hv
            rw [hu] at hv
            cases hv
            refine ⟨_, rfl, [c], ?_, rfl, rfl⟩
            intro d hd
            rw [List.mem_singleton.mp hd]
            exact hc
    · cases h
  kept s s' h hs := h.has hs

theorem ensures_setUserVersion :
    Ensures Db.Extends setUserVersion (fun s => s.userVersion = 2) where
  settled s h := by
    rw [setUserVersion, ← h]
  does s s' h := by
    cases h
    exact ⟨rfl, fun t ht => ⟨t, ht, .refl t⟩, List.Subset.refl _, fun _ => rfl⟩
  kept s s' h hs := h.userVersion hs

/-! ## The scripts -/

/-- What the two functions ensure, in their order. -/
def columnSteps : List (Db → Option Db) := motorColumns.map ensured ++ [setUserVersion]

def createSteps : List (Db → Option Db) :=
  [createTable, createIndex .received, createIndex .robotReceived]

def upgradeSteps : List (Db → Option Db) := [some, some, some] ++ columnSteps

def migrateSteps : List (Db → Option Db) := [some, some, some] ++ (createSteps ++ columnSteps)

theorem any_name (t : Table) (c : Column) :
    t.columns.any (fun d => d.name = c.name) = decide (c ∈ t.columns) := by
  rw [Bool.eq_iff_iff, List.any_eq_true, decide_eq_true_iff]
  constructor
  · rintro ⟨d, hd, hname⟩
    rw [← Column.name_injective (of_decide_eq_true hname)]
    exact hd
  · intro h
    exact ⟨c, h, decide_eq_true rfl⟩

theorem alterTable_definition (c : Column) : alterTable c.definition = addColumn c := by
  funext s
  unfold alterTable
  rw [find_definition]

theorem ensured_of_has {c : Column} {s : Db} (h : s.Has c) : ensured c s = some s := by
  obtain ⟨t, ht, hmem⟩ := h
  simp only [ensured, ht, if_pos hmem]

theorem ensured_of_not_has {c : Column} {s : Db} (h : ¬ s.Has c) :
    ensured c s = addColumn c s := by
  unfold ensured
  split
  · next t ht => exact if_neg fun hmem => h ⟨t, ht, hmem⟩
  · next hnone =>
    unfold addColumn
    split
    · rfl
    · next t ht =>
      rw [hnone] at ht
      cases ht

theorem addColumn_of_has {c : Column} {s : Db} (h : s.Has c) : addColumn c s = none := by
  obtain ⟨t, ht, hmem⟩ := h
  unfold addColumn
  split
  · rfl
  · next u hu =>
    rw [ht] at hu
    cases hu
    exact dif_pos hmem

/-- The test of `column_exists`. -/
theorem tableInfo_iff (s : Db) (c : Column) :
    (match s.table with
      | some t => t.columns.any (fun d => d.name = c.name)
      | none => false) = true ↔ s.Has c := by
  unfold Db.Has
  cases s.table with
  | none => simp
  | some t => simp only [any_name, decide_eq_true_eq, Option.some.injEq, exists_eq_left']

/-- What is found is there; what is not found may be there if the query fails. -/
theorem columnExists_cases (c : Column) (s : Db) (fates : List Fate) :
    (∃ rest, s.Has c ∧ columnExists c.name (s, fates) = .ok true (s, rest)) ∨
    (∃ rest, columnExists c.name (s, fates) = .ok false (s, rest)) ∨
      ∃ rest, columnExists c.name (s, fates) = .error .died (s, rest) := by
  rcases query_cases (fun s : Db => match s.table with
    | some t => t.columns.any (fun d => d.name = c.name)
    | none => false) false s fates with ⟨a, rest, hquery, ha⟩ | ⟨rest, hquery⟩
  · cases a with
    | false => exact .inr (.inl ⟨rest, hquery⟩)
    | true =>
      rcases ha with ha | ha
      · exact .inl ⟨rest, (tableInfo_iff s c).mp ha.symm, hquery⟩
      · cases ha
  · exact .inr (.inr ⟨rest, hquery⟩)

theorem columnExists_nil (c : Column) (s : Db) :
    ∃ b, columnExists c.name (s, []) = .ok b (s, []) ∧ (b = true ↔ s.Has c) :=
  ⟨_, rfl, tableInfo_iff s c⟩

theorem ensureColumn_bind (c : Column) :
    ensureColumn c.definition = columnExists c.name >>= fun b =>
      if b then pure () else perform (addColumn c) := by
  rw [ensureColumn, columnName_definition, alterTable_definition]

theorem ensureColumn_nil (c : Column) {s s' : Db} (h : ensured c s = some s') :
    ensureColumn c.definition (s, []) = .ok () (s', []) := by
  obtain ⟨b, hcol, hb⟩ := columnExists_nil c s
  rw [ensureColumn_bind, script_bind, hcol]
  cases b with
  | true =>
    rw [ensured_of_has (hb.mp rfl)] at h
    cases h
    rfl
  | false =>
    have hnot : ¬ s.Has c := fun hc => Bool.false_ne_true (hb.mpr hc)
    rw [ensured_of_not_has hnot] at h
    exact perform_nil h

theorem ensureColumn_cases (c : Column) (s : Db) (fates : List Fate) :
    (∃ s' rest, ensureColumn c.definition (s, fates) = .ok () (s', rest) ∧
      ensured c s = some s') ∨
    ∃ stop rest, ensureColumn c.definition (s, fates) = .error stop (s, rest) := by
  rw [ensureColumn_bind, script_bind]
  rcases columnExists_cases c s fates with ⟨rest, hhas, hcol⟩ | ⟨rest, hcol⟩ | ⟨rest, hcol⟩
  · rw [hcol]
    exact .inl ⟨s, rest, rfl, ensured_of_has hhas⟩
  · rw [hcol]
    rcases perform_cases (addColumn c) s rest with ⟨s', more, hrun, hadd⟩ | ⟨stop, more, hrun⟩
    · -- a column that is there is not added
      have hnot : ¬ s.Has c := by
        intro hc
        rw [addColumn_of_has hc] at hadd
        cases hadd
      exact .inl ⟨s', more, hrun, (ensured_of_not_has hnot).trans hadd⟩
    · exact .inr ⟨stop, more, hrun⟩
  · rw [hcol]
    exact .inr ⟨.died, rest, rfl⟩

theorem realises_ensureColumn (c : Column) : Realises (ensureColumn c.definition) [ensured c] :=
  .of_cases (fun _ _ h => ensureColumn_nil c h) (ensureColumn_cases c)

theorem realises_columns {cols : List Bytes} (h : cols = motorColumns.map Column.definition) :
    Realises (do cols.forM ensureColumn; perform setUserVersion) columnSteps := by
  have hloop : cols.forM ensureColumn =
      motorColumns.forM fun c => ensureColumn c.definition := by
    rw [h]
    exact List.forM_map
  rw [hloop]
  exact (realises_forM realises_ensureColumn motorColumns).seq (realises_perform setUserVersion)

theorem realises_pragmas : Realises dbApplyPragmas [some, some, some] :=
  (realises_perform some).seq ((realises_perform some).seq (realises_perform some))

theorem realises_upgrade : Realises dbUpgradeV1ToV2 upgradeSteps :=
  realises_pragmas.seq (realises_columns upgradeCols_eq)

theorem realises_migrate : Realises dbMigrateV2 migrateSteps :=
  realises_pragmas.seq ((realises_perform createTable).seq
    ((realises_perform (createIndex .received)).seq
      ((realises_perform (createIndex .robotReceived)).seq (realises_columns migrateCols_eq))))

end TelemetryTestbed.Persistence
