import TelemetryTestbed.Laws.Persistence.Schema

/-!
# Migration

A migration that was cut short comes to the same end when it is run again
(`migration_restartable`), unless the version could not be read and a database of
version 1 was taken for an unversioned one. It ensures the columns of the motors and
no others, so a table that lacks another column lacks it still under the new version
(`migration_establishes_iff`).

Restarting is the argument of scripts that ensure: every statement leaves alone what the
others have ensured, so running the first ones again changes nothing. The statements of the
two functions and the reading of the version are what has to be checked, and the version that
cannot be read is the exception.
-/

namespace TelemetryTestbed.Persistence

open TelemetryTestbed.Lib

/-! ## One run -/

/-- What `db_ensure_schema` leaves behind, whether it returns 0, returns -1 or dies. -/
def afterRun (s : Db) (fates : List Fate) : Db :=
  match dbEnsureSchema (s, fates) with
  | .ok _ (s', _) => s'
  | .error _ (s', _) => s'

/-- It is run on a database with these fates once for each of the lists. -/
def afterRuns (s : Db) (runs : List (List Fate)) : Db := runs.foldl afterRun s

theorem mem_columnSteps {f : Db → Option Db} (h : f ∈ columnSteps) :
    (∃ c ∈ motorColumns, f = ensured c) ∨ f = setUserVersion := by
  rw [columnSteps, List.mem_append, List.mem_map, List.mem_singleton] at h
  rcases h with ⟨c, hc, rfl⟩ | rfl
  · exact .inl ⟨c, hc, rfl⟩
  · exact .inr rfl

theorem mem_upgradeSteps {f : Db → Option Db} (h : f ∈ upgradeSteps) :
    f = some ∨ (∃ c ∈ motorColumns, f = ensured c) ∨ f = setUserVersion := by
  rcases List.mem_append.mp h with h | h
  · exact .inl (List.eq_of_mem_replicate (n := 3) h)
  · exact .inr (mem_columnSteps h)

/-- All statements but the last. -/
def bodySteps : List (Db → Option Db) :=
  [some, some, some] ++ (createSteps ++ motorColumns.map ensured)

theorem migrateSteps_eq : migrateSteps = bodySteps ++ [setUserVersion] := by
  simp only [migrateSteps, bodySteps, columnSteps, List.append_assoc]

theorem mem_bodySteps {f : Db → Option Db} (h : f ∈ bodySteps) :
    f = some ∨ f = createTable ∨ (∃ i, f = createIndex i) ∨ ∃ c ∈ motorColumns, f = ensured c := by
  rcases List.mem_append.mp h with h | h
  · exact .inl (List.eq_of_mem_replicate (n := 3) h)
  · rcases List.mem_append.mp h with h | h
    · simp only [createSteps, List.mem_cons, List.not_mem_nil, or_false] at h
      rcases h with rfl | rfl | rfl
      · exact .inr (.inl rfl)
      · exact .inr (.inr (.inl ⟨_, rfl⟩))
      · exact .inr (.inr (.inl ⟨_, rfl⟩))
    · obtain ⟨c, hc, rfl⟩ := List.mem_map.mp h
      exact .inr (.inr (.inr ⟨c, hc, rfl⟩))

theorem mem_migrateSteps {f : Db → Option Db} (h : f ∈ migrateSteps) :
    f ∈ bodySteps ∨ f = setUserVersion := by
  rw [migrateSteps_eq, List.mem_append, List.mem_singleton] at h
  exact h

theorem ensures_mem_migrateSteps {f : Db → Option Db} (h : f ∈ migrateSteps) :
    ∃ P, Ensures Db.Extends f P := by
  rcases mem_migrateSteps h with h | rfl
  · rcases mem_bodySteps h with rfl | rfl | ⟨i, rfl⟩ | ⟨c, hc, rfl⟩
    · exact ⟨_, ensures_pragma⟩
    · exact ⟨_, ensures_createTable⟩
    · exact ⟨_, ensures_createIndex i⟩
    · exact ⟨_, ensures_ensured hc⟩
  · exact ⟨_, ensures_setUserVersion⟩

theorem upgradeSteps_subset : upgradeSteps ⊆ migrateSteps := by
  intro f hf
  simp only [upgradeSteps, migrateSteps, List.mem_append] at hf ⊢
  rcases hf with hf | hf
  · exact .inl hf
  · exact .inr (.inr hf)

/-- The statements of the two functions. -/
def StepsOf (steps : List (Db → Option Db)) : Prop := steps = migrateSteps ∨ steps = upgradeSteps

theorem StepsOf.subset {steps : List (Db → Option Db)} (h : StepsOf steps) :
    steps ⊆ migrateSteps := by
  rcases h with rfl | rfl
  · exact List.Subset.refl _
  · exact upgradeSteps_subset

theorem StepsOf.ensuring {steps : List (Db → Option Db)} (h : StepsOf steps) : Ensuring steps :=
  .of_ensures fun _ hf => ensures_mem_migrateSteps (h.subset hf)

theorem StepsOf.extends {steps pre : List (Db → Option Db)} (h : StepsOf steps) (hpre : pre ⊆ steps)
    {s s' : Db} (hrun : runAll pre s = some s') : s.Extends s' :=
  runAll_keeps Db.Extends.refl (fun _ _ _ => Db.Extends.trans) (fun f hf u u' hu => by
    obtain ⟨P, hP⟩ := ensures_mem_migrateSteps (h.subset (hpre hf))
    exact (hP.does u u' hu).2) hrun

theorem userVersion_of_mem {f : Db → Option Db} (h : f ∈ bodySteps) {s s' : Db}
    (hs : f s = some s') : s'.userVersion = s.userVersion := by
  rcases mem_bodySteps h with rfl | rfl | ⟨i, rfl⟩ | ⟨c, -, rfl⟩
  · cases hs
    rfl
  · unfold createTable at hs
    split at hs
    · cases hs
      rfl
    · cases hs
      rfl
  · unfold createIndex at hs
    split at hs
    · cases hs
      rfl
    · split at hs
      · cases hs
      · split at hs
        · cases hs
          rfl
        · cases hs
  · by_cases hc : s.Has c
    · rw [ensured_of_has hc] at hs
      cases hs
      rfl
    · rw [ensured_of_not_has hc] at hs
      unfold addColumn at hs
      split at hs
      · cases hs
      · split at hs
        · cases hs
        · cases hs
          rfl

/-- Only the last statement changes the version. -/
theorem StepsOf.version {steps pre : List (Db → Option Db)} (h : StepsOf steps)
    (hpre : pre <+: steps) {s s' : Db} (hrun : runAll pre s = some s') :
    s'.userVersion = s.userVersion ∨ s'.userVersion = 2 ∧ runAll steps s = some s' := by
  obtain ⟨body, hsteps, hbody⟩ : ∃ body, steps = body ++ [setUserVersion] ∧
      body ⊆ bodySteps := by
    rcases h with rfl | rfl
    · exact ⟨_, migrateSteps_eq, List.Subset.refl _⟩
    · refine ⟨[some, some, some] ++ motorColumns.map ensured, ?_, ?_⟩
      · rw [upgradeSteps, columnSteps, List.append_assoc]
      · intro f hf
        simp only [bodySteps, List.mem_append] at hf ⊢
        rcases hf with hf | hf
        · exact .inl hf
        · exact .inr (.inr hf)
  rw [hsteps] at hpre
  rcases List.prefix_concat_iff.mp hpre with hwhole | hpart
  · rw [hwhole] at hrun
    rw [hsteps]
    refine .inr ⟨?_, hrun⟩
    rw [runAll_append] at hrun
    obtain ⟨t, -, hlast⟩ := Option.bind_eq_some_iff.mp hrun
    rw [runAll_singleton] at hlast
    cases hlast
    rfl
  · refine .inl (runAll_keeps (R := fun u u' => u'.userVersion = u.userVersion) (fun _ => rfl)
      ?_ ?_ hrun)
    · intro u v w huv hvw
      exact hvw.trans huv
    · intro f hf u u' hu
      exact userVersion_of_mem (hbody (hpart.subset hf)) hu

/-- The script that `db_ensure_schema` takes for a version. -/
def scriptOf (userVersion : Int) : Script Db Unit :=
  if userVersion = 0 then dbMigrateV2
  else if userVersion = 1 then dbUpgradeV1ToV2
  else if userVersion = 2 then pure ()
  else throw .error

/-- The query for the version was prepared, and its step failed. -/
def Misread (fates : List Fate) : Prop := ∃ rest, fates = .answered :: .fails :: rest

theorem dbEnsureSchema_nil (s : Db) : dbEnsureSchema (s, []) = scriptOf s.userVersion (s, []) :=
  rfl

theorem dbEnsureSchema_cases (s : Db) (fates : List Fate) :
    (∃ stop rest, dbEnsureSchema (s, fates) = .error stop (s, rest)) ∨
    ∃ v rest, (v = s.userVersion ∨ v = 0 ∧ Misread fates) ∧
      dbEnsureSchema (s, fates) = scriptOf v (s, rest) := by
  rcases fates with _ | ⟨_ | _ | _, _ | ⟨_ | _ | _, rest⟩⟩
  · exact .inr ⟨_, [], .inl rfl, rfl⟩
  · exact .inr ⟨_, [], .inl rfl, rfl⟩
  · exact .inr ⟨_, rest, .inl rfl, rfl⟩
  · exact .inr ⟨0, rest, .inr ⟨rfl, rest, rfl⟩, rfl⟩
  · exact .inl ⟨.died, rest, rfl⟩
  all_goals exact .inl ⟨_, _, rfl⟩

/-- Where an uninterrupted run ends. -/
def target (s : Db) : Option Db :=
  if s.userVersion = 0 then runAll migrateSteps s
  else if s.userVersion = 1 then runAll upgradeSteps s
  else if s.userVersion = 2 then some s
  else none

theorem dbEnsureSchema_nil_iff (s s' : Db) :
    dbEnsureSchema (s, []) = .ok () (s', []) ↔ target s = some s' := by
  rw [dbEnsureSchema_nil, scriptOf, target]
  split
  · exact ⟨realises_migrate.done s [] s' [], realises_migrate.whole s s'⟩
  · split
    · exact ⟨realises_upgrade.done s [] s' [], realises_upgrade.whole s s'⟩
    · split
      · constructor
        · intro h
          cases h
          rfl
        · intro h
          cases h
          rfl
      · constructor
        · intro h
          cases h
        · intro h
          cases h

/-- The statements of the function that a run takes. -/
def Takes (s : Db) (fates : List Fate) (steps : List (Db → Option Db)) : Prop :=
  (s.userVersion = 0 ∨ Misread fates) ∧ steps = migrateSteps ∨
    s.userVersion = 1 ∧ steps = upgradeSteps

theorem Takes.stepsOf {s : Db} {fates : List Fate} {steps : List (Db → Option Db)}
    (h : Takes s fates steps) : StepsOf steps := by
  rcases h with ⟨-, h⟩ | ⟨-, h⟩
  · exact .inl h
  · exact .inr h

/-- A run that returns 0 has run all statements, or found the version it would set. -/
theorem dbEnsureSchema_ok {s s' : Db} {fates rest : List Fate}
    (h : dbEnsureSchema (s, fates) = .ok () (s', rest)) :
    s.userVersion = 2 ∧ s' = s ∨ ∃ steps, Takes s fates steps ∧ runAll steps s = some s' := by
  rcases dbEnsureSchema_cases s fates with ⟨stop, more, hrun⟩ | ⟨v, more, hv, hrun⟩
  · rw [hrun] at h
    cases h
  · rw [hrun, scriptOf] at h
    split at h
    · next h0 =>
      refine .inr ⟨migrateSteps, .inl ⟨?_, rfl⟩, realises_migrate.done s more s' rest h⟩
      rcases hv with hv | ⟨-, hmis⟩
      · exact .inl (hv ▸ h0)
      · exact .inr hmis
    · next h0 =>
      have hv : v = s.userVersion := hv.resolve_right fun hm => h0 hm.1
      split at h
      · next h1 =>
        exact .inr ⟨upgradeSteps, .inr ⟨hv ▸ h1, rfl⟩, realises_upgrade.done s more s' rest h⟩
      · split at h
        · next h2 =>
          cases h
          exact .inl ⟨hv ▸ h2, rfl⟩
        · cases h

/-- Any run leaves the work of the first statements. -/
theorem afterRun_cases (s : Db) (fates : List Fate) :
    afterRun s fates = s ∨ ∃ steps pre, Takes s fates steps ∧ pre <+: steps ∧
      runAll pre s = some (afterRun s fates) := by
  cases hres : dbEnsureSchema (s, fates) with
  | ok u y =>
    obtain ⟨s', rest⟩ := y
    have hafter : afterRun s fates = s' := by
      unfold afterRun
      rw [hres]
    rw [hafter]
    rcases dbEnsureSchema_ok hres with ⟨-, heq⟩ | ⟨steps, htakes, hrun⟩
    · exact .inl heq
    · exact .inr ⟨steps, steps, htakes, List.prefix_rfl, hrun⟩
  | error stop y =>
    obtain ⟨s', rest⟩ := y
    have hafter : afterRun s fates = s' := by
      unfold afterRun
      rw [hres]
    rw [hafter]
    rcases dbEnsureSchema_cases s fates with ⟨stop', more, hrun⟩ | ⟨v, more, hv, hrun⟩
    · rw [hres] at hrun
      cases hrun
      exact .inl rfl
    · rw [hres, scriptOf] at hrun
      split at hrun
      · next h0 =>
        obtain ⟨pre, hpre, hstate⟩ := realises_migrate.cut s more stop s' rest hrun.symm
        refine .inr ⟨migrateSteps, pre, .inl ⟨?_, rfl⟩, hpre, hstate⟩
        rcases hv with hv | ⟨-, hmis⟩
        · exact .inl (hv ▸ h0)
        · exact .inr hmis
      · next h0 =>
        have hv : v = s.userVersion := hv.resolve_right fun hm => h0 hm.1
        split at hrun
        · next h1 =>
          obtain ⟨pre, hpre, hstate⟩ := realises_upgrade.cut s more stop s' rest hrun.symm
          exact .inr ⟨upgradeSteps, pre, .inr ⟨hv ▸ h1, rfl⟩, hpre, hstate⟩
        · split at hrun
          · cases hrun
          · cases hrun
            exact .inl rfl

/-! ## The columns -/

/-- The columns that the writer's `INSERT` and the `SELECT` of the history name are there. -/
def Db.Established (s : Db) : Prop := ∀ c ∈ insertColumns ++ selectColumns, s.Has c

/-- Whichever statements fail, 0 is returned and version 2 is set only with all columns. -/
def SchemaEstablished (s : Db) : Prop := ∀ fates,
  (∀ s' rest, dbEnsureSchema (s, fates) = .ok () (s', rest) →
    s'.userVersion = 2 ∧ s'.Established) ∧
  ((afterRun s fates).userVersion = 2 → (afterRun s fates).Established)

theorem createTable_has {s s' : Db} (h : s.table = none) (hs : createTable s = some s')
    (c : Column) : s'.Has c := by
  unfold createTable at hs
  split at hs
  · next t ht =>
    rw [h] at ht
    cases ht
  · cases hs
    exact ⟨_, rfl, mem_createdColumns c⟩

theorem createIndex_total {s : Db} {i : Index} (h : ∀ c ∈ i.columns, s.Has c) :
    ∃ s', createIndex i s = some s' := by
  unfold createIndex
  split
  · exact ⟨s, rfl⟩
  · split
    · next hnone =>
      have hsome : ∃ c, c ∈ i.columns := by
        cases i
        · exact ⟨_, List.mem_cons_self⟩
        · exact ⟨_, List.mem_cons_self⟩
      obtain ⟨c, hc⟩ := hsome
      obtain ⟨t, ht, -⟩ := h c hc
      rw [hnone] at ht
      cases ht
    · next t ht =>
      have hall : ∀ c ∈ i.columns, c ∈ t.columns := by
        intro c hc
        obtain ⟨t', ht', hmem⟩ := h c hc
        rw [ht] at ht'
        cases ht'
        exact hmem
      rw [dif_pos hall]
      exact ⟨_, rfl⟩

theorem ensured_total {s : Db} (h : s.table ≠ none) (c : Column) :
    ∃ s', ensured c s = some s' := by
  by_cases hc : s.Has c
  · exact ⟨s, ensured_of_has hc⟩
  · obtain ⟨t, ht⟩ := Option.ne_none_iff_exists'.mp h
    rw [ensured_of_not_has hc]
    unfold addColumn
    split
    · next hnone => exact absurd hnone h
    · next u hu =>
      rw [dif_neg fun hmem => hc ⟨u, hu, hmem⟩]
      exact ⟨_, rfl⟩

/-- With a table, and the columns of the indexes where they are created, no statement is
refused. -/
theorem StepsOf.total {steps : List (Db → Option Db)} (h : StepsOf steps) {s : Db}
    (htable : s.table ≠ none)
    (hindex : steps = migrateSteps → ∀ i : Index, ∀ c ∈ i.columns, s.Has c) :
    ∃ s', runAll steps s = some s' := by
  apply runAll_total (I := fun u => s.Extends u) _ (Db.Extends.refl s)
  intro f hf u hu
  have hmem := h.subset hf
  have hdone : ∃ u', f u = some u' := by
    have htable' : u.table ≠ none := ensures_createTable.kept s u hu htable
    rcases h with heq | heq
    · rcases mem_migrateSteps hmem with hbody | rfl
      · rcases mem_bodySteps hbody with rfl | rfl | ⟨i, rfl⟩ | ⟨c, -, rfl⟩
        · exact ⟨u, rfl⟩
        · exact ⟨u, ensures_createTable.settled u htable'⟩
        · exact createIndex_total fun c hc => hu.has (hindex heq i c hc)
        · exact ensured_total htable' c
      · exact ⟨_, rfl⟩
    · rw [heq] at hf
      rcases mem_upgradeSteps hf with rfl | ⟨c, -, rfl⟩ | rfl
      · exact ⟨u, rfl⟩
      · exact ensured_total htable' c
      · exact ⟨_, rfl⟩
  obtain ⟨u', hu'⟩ := hdone
  obtain ⟨P, hP⟩ := ensures_mem_migrateSteps hmem
  exact ⟨u', hu', hu.trans (hP.does u u' hu').2⟩

theorem StepsOf.mem_columnSteps {steps : List (Db → Option Db)} (h : StepsOf steps)
    {f : Db → Option Db} (hf : f ∈ columnSteps) : f ∈ steps := by
  rcases h with rfl | rfl
  · exact List.mem_append_right _ (List.mem_append_right _ hf)
  · exact List.mem_append_right _ hf

/-- All statements together leave version 2 and the columns of the motors. -/
theorem StepsOf.whole {steps : List (Db → Option Db)} (h : StepsOf steps) {s s' : Db}
    (hrun : runAll steps s = some s') :
    s'.userVersion = 2 ∧ ∀ c ∈ motorColumns, s'.Has c := by
  have hsettled := h.ensuring.settled hrun
  constructor
  · have hlast := hsettled setUserVersion (h.mem_columnSteps (List.mem_append_right _
      List.mem_cons_self))
    exact (ensures_setUserVersion.does s' s' hlast).1
  · intro c hc
    have hcol := hsettled (ensured c) (h.mem_columnSteps (List.mem_append_left _
      (List.mem_map_of_mem hc)))
    exact ((ensures_ensured hc).does s' s' hcol).1

/-- Without a table the upgrade is refused, and the migration creates it whole. -/
theorem whole_without_table {steps : List (Db → Option Db)} (h : StepsOf steps) {s s' : Db}
    (hnone : s.table = none) (hrun : runAll steps s = some s') (c : Column) : s'.Has c := by
  rcases h with rfl | rfl
  · have hsplit : migrateSteps = [some, some, some, createTable] ++
        ([createIndex .received, createIndex .robotReceived] ++ columnSteps) := rfl
    rw [hsplit, runAll_append] at hrun
    obtain ⟨t, ht, hrest⟩ := Option.bind_eq_some_iff.mp hrun
    have hcreate : createTable s = some t := (runAll_singleton createTable s).symm.trans ht
    have hext : t.Extends s' := StepsOf.extends (.inl rfl) (by
      rw [hsplit]
      exact List.subset_append_right _ _) hrest
    exact hext.has (createTable_has hnone hcreate c)
  · simp [upgradeSteps, columnSteps, motorColumns, runAll, ensured, hnone] at hrun

/-- All columns are there after a complete run exactly if they were created, or were there
apart from those of the motors. -/
theorem established_iff {steps : List (Db → Option Db)} (h : StepsOf steps) {s s' : Db}
    (hrun : runAll steps s = some s') :
    s'.Established ↔ s.table = none ∨
      ∀ c ∈ insertColumns ++ selectColumns, c ∉ motorColumns → s.Has c := by
  constructor
  · intro hest
    by_cases hnone : s.table = none
    · exact .inl hnone
    · exact .inr fun c hc hmotor =>
        (h.extends (List.Subset.refl _) hrun).had hnone (hest c hc) hmotor
  · rintro (hnone | hbase) c hc
    · exact whole_without_table h hnone hrun c
    · by_cases hmotor : c ∈ motorColumns
      · exact (h.whole hrun).2 c hmotor
      · exact (h.extends (List.Subset.refl _) hrun).has (hbase c hc hmotor)

/-- An index that is created needs its columns. -/
theorem has_of_migrated {s s' : Db} (htable : s.table ≠ none)
    (hrun : runAll migrateSteps s = some s') (i : Index) : ∀ c ∈ i.columns, s.Has c := by
  intro c hc
  have hsteps : StepsOf migrateSteps := .inl rfl
  have hmem : createIndex i ∈ migrateSteps := by
    cases i
    · simp [migrateSteps, createSteps]
    · simp [migrateSteps, createSteps]
  have hindex := ((ensures_createIndex i).does s' s' (hsteps.ensuring.settled hrun _ hmem)).1
  have hmotor : c ∉ motorColumns := by
    revert c
    cases i <;> decide
  exact (hsteps.extends (List.Subset.refl _) hrun).had htable (s'.indexed i hindex c hc) hmotor

/-- **When the stamped schema is there.** `s` is any database of version 0 or 1, with whatever
table and indexes it has. `SchemaEstablished` says, for every way the statements of one run may
fail or the process may die, that success and the version 2 are only left behind with all
columns that the `INSERT` and the `SELECT` name. That holds exactly if there was no table at
all, or the table had all those columns but the ones of the motors, or the database was
unversioned and its table lacks a column of an index, so that the migration cannot come to its
end. -/
theorem migration_establishes_iff (s : Db) (hversion : s.userVersion = 0 ∨ s.userVersion = 1) :
    SchemaEstablished s ↔ s.table = none ∨
      (∀ c ∈ insertColumns ++ selectColumns, c ∉ motorColumns → s.Has c) ∨
      s.userVersion = 0 ∧ ∃ i : Index, ∃ c ∈ i.columns, ¬ s.Has c := by
  have hnot2 : s.userVersion ≠ 2 := by omega
  constructor
  · intro h
    by_contra hcon
    simp only [not_or, not_and, not_exists, not_not] at hcon
    obtain ⟨htable, hbase, hindex⟩ := hcon
    have hrun : ∃ steps s', StepsOf steps ∧ runAll steps s = some s' ∧
        dbEnsureSchema (s, []) = .ok () (s', []) := by
      rcases hversion with hv | hv
      · obtain ⟨s', hs'⟩ := StepsOf.total (.inl rfl) htable fun _ => hindex hv
        refine ⟨_, s', .inl rfl, hs', (dbEnsureSchema_nil_iff s s').mpr ?_⟩
        rw [target, if_pos hv, hs']
      · obtain ⟨s', hs'⟩ := @StepsOf.total upgradeSteps (.inr rfl) s htable fun heq => by
          have hlen := congrArg List.length heq
          simp [migrateSteps, upgradeSteps, createSteps] at hlen
        refine ⟨_, s', .inr rfl, hs', (dbEnsureSchema_nil_iff s s').mpr ?_⟩
        rw [target, if_neg (by omega), if_pos hv, hs']
    obtain ⟨steps, s', hsteps, hrun, hok⟩ := hrun
    rcases (established_iff hsteps hrun).mp ((h []).1 s' [] hok).2 with hnone | hall
    · exact htable hnone
    · exact hbase hall
  · intro h
    have hwhole : ∀ fates steps s', Takes s fates steps → runAll steps s = some s' →
        s'.Established := by
      intro fates steps s' htakes hrun
      rw [established_iff htakes.stepsOf hrun]
      rcases h with hnone | hbase | ⟨hv, i, c, hc, hmiss⟩
      · exact .inl hnone
      · exact .inr hbase
      · by_cases htable : s.table = none
        · exact .inl htable
        · rcases htakes with ⟨-, rfl⟩ | ⟨hv1, -⟩
          · exact absurd (has_of_migrated htable hrun i c hc) hmiss
          · omega
    intro fates
    constructor
    · intro s' rest hok
      rcases dbEnsureSchema_ok hok with ⟨hv, -⟩ | ⟨steps, htakes, hrun⟩
      · exact absurd hv hnot2
      · exact ⟨(htakes.stepsOf.whole hrun).1, hwhole fates steps s' htakes hrun⟩
    · intro hafter
      rcases afterRun_cases s fates with heq | ⟨steps, pre, htakes, hpre, hrun⟩
      · rw [heq] at hafter
        exact absurd hafter hnot2
      · rcases htakes.stepsOf.version hpre hrun with hv | ⟨-, hall⟩
        · exact absurd (hv.symm.trans hafter) hnot2
        · exact hwhole fates steps _ htakes hall

/-- An unversioned table with the columns of the indexes and no others. -/
def indexColumnsOnly : Db where
  userVersion := 0
  table := some ⟨[.receivedAtNs, .robotId], [], by decide, fun _ h => absurd h List.not_mem_nil⟩
  indexes := []
  indexed i h := absurd h List.not_mem_nil

theorem indexColumnsOnly_has (c : Column) :
    indexColumnsOnly.Has c ↔ c = .receivedAtNs ∨ c = .robotId := by
  simp [Db.Has, indexColumnsOnly]

theorem migration_establishes_indexColumnsOnly :
    SchemaEstablished indexColumnsOnly ↔ indexColumnsOnly.table = none ∨
      (∀ c ∈ insertColumns ++ selectColumns, c ∉ motorColumns → indexColumnsOnly.Has c) ∨
      indexColumnsOnly.userVersion = 0 ∧ ∃ i : Index, ∃ c ∈ i.columns, ¬ indexColumnsOnly.Has c :=
  migration_establishes_iff indexColumnsOnly (.inl rfl)

/-- It returns 0 and sets version 2, and there is no column for the topic. -/
theorem migration_stamps_partial : ∃ s', dbEnsureSchema (indexColumnsOnly, []) = .ok () (s', []) ∧
    s'.userVersion = 2 ∧ .topic ∈ insertColumns ∧ ¬ s'.Has .topic := by
  have hsteps : StepsOf migrateSteps := .inl rfl
  have htable : indexColumnsOnly.table ≠ none := by simp [indexColumnsOnly]
  obtain ⟨s', hrun⟩ := hsteps.total htable fun _ i c hc => by
    rw [indexColumnsOnly_has]
    revert c
    cases i <;> decide
  refine ⟨s', (dbEnsureSchema_nil_iff _ _).mpr ?_, (hsteps.whole hrun).1, by decide, ?_⟩
  · have hv : indexColumnsOnly.userVersion = 0 := rfl
    rw [target, if_pos hv, hrun]
  · intro htopic
    have hold := (hsteps.extends (List.Subset.refl _) hrun).had htable htopic (by decide)
    rw [indexColumnsOnly_has] at hold
    simp at hold

/-! ## Restarting -/

/-- What holds before every run: it would come to the end `final`, and a database of version 2
is complete. -/
structure Restartable (final s : Db) : Prop where
  ends : target s = some final
  settled : s.userVersion = 2 → ∀ f ∈ upgradeSteps, f s = some s

/-- The run takes a database with a version for an unversioned one, and an index is missing. -/
def TakenForUnversioned (s : Db) (fates : List Fate) : Prop :=
  s.userVersion ≠ 0 ∧ (∃ i : Index, i ∉ s.indexes) ∧ Misread fates

/-- With the table and the indexes there is nothing to create. -/
theorem runAll_migrateSteps {s : Db} (htable : s.table ≠ none) (hindex : ∀ i : Index, i ∈ s.indexes) :
    runAll migrateSteps s = runAll upgradeSteps s := by
  have hcreate : runAll createSteps s = some s := by
    apply runAll_settled
    intro f hf
    simp only [createSteps, List.mem_cons, List.not_mem_nil, or_false] at hf
    rcases hf with rfl | rfl | rfl
    · exact ensures_createTable.settled s htable
    · exact (ensures_createIndex _).settled s (hindex _)
    · exact (ensures_createIndex _).settled s (hindex _)
  have hpragma : runAll [some, some, some] s = some s := rfl
  rw [migrateSteps, upgradeSteps, runAll_append, runAll_append, hpragma, Option.bind_some,
    Option.bind_some, runAll_append, hcreate, Option.bind_some]

theorem table_of_upgraded {s s' : Db} (h : runAll upgradeSteps s = some s') : s.table ≠ none := by
  intro hnone
  simp [upgradeSteps, columnSteps, motorColumns, runAll, ensured, hnone] at h

/-- The first statements of the function that is due leave a database that comes to the same
end. -/
theorem Restartable.resume {final s s' : Db} {steps pre : List (Db → Option Db)}
    (h : StepsOf steps) (htarget : ∀ u : Db, u.userVersion = s.userVersion →
      s.Extends u → target u = runAll steps u)
    (hfinal : target s = some final) (hversion : s.userVersion ≠ 2) (hpre : pre <+: steps)
    (hrun : runAll pre s = some s') : Restartable final s' := by
  have hext := h.extends hpre.subset hrun
  rw [htarget s rfl (.refl s)] at hfinal
  rcases h.version hpre hrun with hv | ⟨hv, hwhole⟩
  · refine ⟨?_, fun h2 => absurd (hv.symm.trans h2) hversion⟩
    rw [htarget s' hv hext, runAll_resume h.ensuring hpre hrun, hfinal]
  · refine ⟨?_, ?_⟩
    · rw [← hfinal, hwhole, target, if_neg (by omega), if_neg (by omega), if_pos hv]
    · intro _ f hf
      have hsettled := h.ensuring.settled hwhole
      rcases h with rfl | rfl
      · exact hsettled f (upgradeSteps_subset hf)
      · exact hsettled f hf

theorem Restartable.afterRun {final s : Db} (h : Restartable final s) {fates : List Fate}
    (hguard : ¬ TakenForUnversioned s fates) : Restartable final (afterRun s fates) := by
  rcases afterRun_cases s fates with heq | ⟨steps, pre, htakes, hpre, hrun⟩
  · rw [heq]
    exact h
  · have hsteps := htakes.stepsOf
    rcases htakes with ⟨hv | hmis, rfl⟩ | ⟨hv, rfl⟩
    · refine .resume hsteps ?_ h.ends (by omega) hpre hrun
      intro u hu _
      rw [target, if_pos (hu.trans hv)]
    · by_cases h0 : s.userVersion = 0
      · refine .resume hsteps ?_ h.ends (by omega) hpre hrun
        intro u hu _
        rw [target, if_pos (hu.trans h0)]
      · -- taken for an unversioned database, but nothing has to be created
        have hindex : ∀ i : Index, i ∈ s.indexes := by
          intro i
          by_contra hi
          exact hguard ⟨h0, ⟨i, hi⟩, hmis⟩
        by_cases h2 : s.userVersion = 2
        · have hsettled := h.settled h2
          have htable := table_of_upgraded (runAll_settled hsettled)
          have hall : ∀ f ∈ migrateSteps, f s = some s := by
            intro f hf
            rcases mem_migrateSteps hf with hbody | rfl
            · rcases mem_bodySteps hbody with rfl | rfl | ⟨i, rfl⟩ | ⟨c, hc, rfl⟩
              · rfl
              · exact ensures_createTable.settled s htable
              · exact (ensures_createIndex i).settled s (hindex i)
              · exact hsettled _ (StepsOf.mem_columnSteps (.inr rfl)
                  (List.mem_append_left _ (List.mem_map_of_mem hc)))
            · exact ensures_setUserVersion.settled s h2
          have hsame := runAll_settled fun f hf => hall f (hpre.subset hf)
          rw [hrun] at hsame
          rw [Option.some.inj hsame]
          exact h
        · by_cases h1 : s.userVersion = 1
          · have hfinal := h.ends
            rw [target, if_neg h0, if_pos h1] at hfinal
            have htable := table_of_upgraded hfinal
            refine .resume hsteps ?_ h.ends h2 hpre hrun
            intro u hu hext
            rw [target, if_neg (by omega), if_pos (hu.trans h1),
              runAll_migrateSteps (ensures_createTable.kept s u hext htable)
                fun i => hext.indexes (hindex i)]
          · have hfinal := h.ends
            rw [target, if_neg h0, if_neg h1, if_neg h2] at hfinal
            cases hfinal
    · refine .resume hsteps ?_ h.ends (by omega) hpre hrun
      intro u hu _
      rw [target, if_neg (by omega), if_pos (hu.trans hv)]

/-- No run takes a database with a version for an unversioned one while an index is missing. -/
def Guarded : Db → List (List Fate) → Prop
  | _, [] => True
  | s, fates :: runs => ¬ TakenForUnversioned s fates ∧ Guarded (afterRun s fates) runs

theorem Restartable.afterRuns {final s : Db} {runs : List (List Fate)} (h : Restartable final s)
    (hguard : Guarded s runs) : Restartable final (afterRuns s runs) := by
  induction runs generalizing s with
  | nil => exact h
  | cons fates runs ih => exact ih (h.afterRun hguard.1) hguard.2

/-! ## The rows -/

/-- The value of a row in a column. -/
def Table.value (t : Table) (row : List SqlValue) (c : Column) : Option SqlValue :=
  (t.columns.zip row).lookup c

/-- Every row is still there with all its values, and `NULL` in the new columns. -/
def Db.KeepsRows (s s' : Db) : Prop := ∀ t, s.table = some t → ∃ t', s'.table = some t' ∧
  t'.rows.length = t.rows.length ∧ ∀ (i : Nat) row, t.rows[i]? = some row → ∃ row',
    t'.rows[i]? = some row' ∧ (∀ c ∈ t.columns, t'.value row' c = t.value row c) ∧
      ∀ c ∈ t'.columns, c ∉ t.columns → t'.value row' c = some .null

theorem lookup_zip_isSome {cols : List Column} {row : List SqlValue} {c : Column}
    (hlen : row.length = cols.length) : ((cols.zip row).lookup c).isSome = true ↔ c ∈ cols := by
  induction cols generalizing row with
  | nil => simp
  | cons d cols ih =>
    cases row with
    | nil => cases hlen
    | cons v row =>
      rw [List.zip_cons_cons, List.lookup_cons, List.mem_cons, ← ih (Nat.succ.inj hlen)]
      by_cases hcd : c = d
      · simp [hcd]
      · rw [beq_eq_false_iff_ne.mpr hcd, or_iff_right hcd]

theorem lookup_zip_null {cols : List Column} {c : Column} (h : c ∈ cols) :
    (cols.zip (List.replicate cols.length SqlValue.null)).lookup c = some .null := by
  induction cols with
  | nil => cases h
  | cons d cols ih =>
    rw [List.length_cons, List.replicate_succ, List.zip_cons_cons, List.lookup_cons]
    by_cases hcd : c = d
    · simp [hcd]
    · rw [beq_eq_false_iff_ne.mpr hcd]
      exact ih ((List.mem_cons.mp h).resolve_left hcd)

theorem Db.Extends.keepsRows {s s' : Db} (h : s.Extends s') : s.KeepsRows s' := by
  intro t ht
  obtain ⟨t', ht', added, -, hcols, hrows⟩ := h.table t ht
  refine ⟨t', ht', by rw [hrows, List.length_map], ?_⟩
  intro i row hrow
  have hlen := t.filled row (List.mem_of_getElem? hrow)
  have hvalue : ∀ c, t'.value (row ++ List.replicate added.length .null) c =
      (t.value row c).or ((added.zip (List.replicate added.length .null)).lookup c) := by
    intro c
    rw [Table.value, hcols, List.zip_append hlen.symm, List.lookup_append]
    rfl
  refine ⟨_, by rw [hrows, List.getElem?_map, hrow]; rfl, ?_, ?_⟩
  · intro c hc
    obtain ⟨v, hv⟩ := Option.isSome_iff_exists.mp ((lookup_zip_isSome hlen).mpr hc)
    rw [hvalue, Table.value, hv]
    rfl
  · intro c hc hold
    have hnone : t.value row c = none := by
      rw [← Option.not_isSome_iff_eq_none]
      exact fun hsome => hold ((lookup_zip_isSome hlen).mp hsome)
    rw [hcols] at hc
    rw [hvalue, hnone, lookup_zip_null ((List.mem_append.mp hc).resolve_left hold)]
    rfl

/-- **A migration can be cut short anywhere and run again.** `final` is what an undisturbed run
makes of the database `s` of version 0 or 1 (`hfirst`). Any runs may have come in between, each
cut short by a failing statement or by the death of the process, as long as none of them took a
version it could not read for 0 while an index was missing (`hguard`). The next undisturbed run
then ends in `final`, of version 2, with every row of `s` kept and NULL in the new columns, and
one more run changes nothing. -/
theorem migration_restartable {s final : Db} {runs : List (List Fate)}
    (hversion : s.userVersion = 0 ∨ s.userVersion = 1)
    (hfirst : dbEnsureSchema (s, []) = .ok () (final, [])) (hguard : Guarded s runs) :
    dbEnsureSchema (afterRuns s runs, []) = .ok () (final, []) ∧ final.userVersion = 2 ∧
      s.KeepsRows final ∧ dbEnsureSchema (final, []) = .ok () (final, []) := by
  have hstart : Restartable final s :=
    ⟨(dbEnsureSchema_nil_iff s final).mp hfirst, fun h2 => by omega⟩
  have hlater := hstart.afterRuns hguard
  obtain ⟨steps, hsteps, hrun⟩ : ∃ steps, StepsOf steps ∧ runAll steps s = some final := by
    have hends := hstart.ends
    rw [target] at hends
    rcases hversion with hv | hv
    · rw [if_pos hv] at hends
      exact ⟨_, .inl rfl, hends⟩
    · rw [if_neg (by omega), if_pos hv] at hends
      exact ⟨_, .inr rfl, hends⟩
  have hfinal := (hsteps.whole hrun).1
  refine ⟨(dbEnsureSchema_nil_iff _ _).mpr hlater.ends, hfinal,
    (hsteps.extends (List.Subset.refl _) hrun).keepsRows, (dbEnsureSchema_nil_iff _ _).mpr ?_⟩
  rw [target, if_neg (by omega), if_neg (by omega), if_pos hfinal]

/-- With all columns an upgrade only sets the version. -/
theorem upgrade_complete {s : Db} (hv : s.userVersion = 1) (h : ∀ c ∈ motorColumns, s.Has c) :
    dbEnsureSchema (s, []) = .ok () ({ s with userVersion := 2 }, []) := by
  have hcols : runAll (motorColumns.map ensured) s = some s := by
    apply runAll_settled
    intro f hf
    obtain ⟨c, hc, rfl⟩ := List.mem_map.mp hf
    exact ensured_of_has (h c hc)
  have hpragma : runAll [some, some, some] s = some s := rfl
  rw [dbEnsureSchema_nil_iff, target, if_neg (by omega), if_pos hv, upgradeSteps, columnSteps,
    runAll_append, hpragma, Option.bind_some, runAll_append, hcols, Option.bind_some,
    runAll_singleton]
  rfl

/-- A database of version 1 with all columns and without indexes. -/
def withoutIndexes : Db where
  userVersion := 1
  table := some createdTable
  indexes := []
  indexed _ h := absurd h List.not_mem_nil

theorem withoutIndexes_ends : dbEnsureSchema (withoutIndexes, []) =
    .ok () ({ withoutIndexes with userVersion := 2 }, []) :=
  upgrade_complete rfl fun c _ => ⟨createdTable, rfl, mem_createdColumns c⟩

/-- A run that dies at the first `PRAGMA`, and one that fails at the second. -/
theorem migration_restartable_withoutIndexes :
    dbEnsureSchema (afterRuns withoutIndexes
        [[.answered, .answered, .dies], [.answered, .answered, .answered, .fails]], []) =
      .ok () ({ withoutIndexes with userVersion := 2 }, []) := by
  have hread : ∀ s b rest, ¬ TakenForUnversioned s (.answered :: .answered :: b :: rest) := by
    rintro s b rest ⟨-, -, rest', hrest⟩
    cases hrest
  have hguard : Guarded withoutIndexes
      [[.answered, .answered, .dies], [.answered, .answered, .answered, .fails]] :=
    ⟨hread _ _ _, hread _ _ _, True.intro⟩
  exact (migration_restartable (.inr rfl) withoutIndexes_ends hguard).1

/-- The version cannot be read, the indexes are created, and the process dies. -/
def misreading : List Fate :=
  [.answered, .fails, .answered, .answered, .answered, .answered, .answered, .answered, .dies]

/-- After such a run the indexes are there, which they are not after an undisturbed one. -/
theorem migration_misread_creates_indexes : ∃ final,
    dbEnsureSchema (withoutIndexes, []) = .ok () ({ withoutIndexes with userVersion := 2 }, []) ∧
    dbEnsureSchema (afterRuns withoutIndexes [misreading], []) = .ok () (final, []) ∧
    withoutIndexes.indexes = [] ∧ final.indexes = [.received, .robotReceived] := by
  have hafter : ∃ s, afterRuns withoutIndexes [misreading] = s ∧ s.userVersion = 1 ∧
      s.table = some createdTable ∧ s.indexes = [.received, .robotReceived] :=
    ⟨_, rfl, rfl, rfl, rfl⟩
  obtain ⟨s, hs, hv, htable, hindexes⟩ := hafter
  refine ⟨{ s with userVersion := 2 }, withoutIndexes_ends, ?_, rfl, hindexes⟩
  rw [hs]
  exact upgrade_complete hv fun c _ => ⟨createdTable, htable, mem_createdColumns c⟩

end TelemetryTestbed.Persistence
