import CueShell.Model.Migration
import CueShell.Soundness.ScopeSecrets
import Mathlib.Tactic.IntervalCases

/-! # Steps of the migration

The rows of a table are read with a default in every column that is missing. A column that is added
changes no row read so, and each of the other steps changes every row by a function of its own.
-/

namespace CueShell

instance : Fintype SqlTable where
  elems := {.scopes, .scopeHead, .crons, .jobsHistory, .configCache, .scriptRuns, .scriptItems, .sessions}
  complete := by rintro ⟨⟩ <;> decide

instance : Fintype SqlColumn where
  elems := {.cronScopeHash, .cronStatus, .cronCwdOverride, .cronScopeEnabled, .cronWrapperEnabled,
    .cronCreatedAtMs, .cronSessionId, .jobStartScope, .jobEndScope, .jobChainId, .jobStderr, .jobSessionId,
    .scriptExitCode, .scriptFailedItemIndex, .scriptFinishedAt, .sessionArchivedAtMs}
  complete := by rintro ⟨⟩ <;> decide

namespace SchemaDb

variable {db after : SchemaDb}

section Rows

/-- A row of crons, with defaults for the columns that are missing. -/
def readCron (db : SchemaDb) (row : CronRecord) : CronRecord where
  id := row.id
  schedule := row.schedule
  command := row.command
  enabled := row.enabled
  scopeHash := if .cronScopeHash ∈ db.columns then row.scopeHash else none
  status := if .cronStatus ∈ db.columns then row.status else none
  cwdOverride := if .cronCwdOverride ∈ db.columns then row.cwdOverride else none
  scopeEnabled := if .cronScopeEnabled ∈ db.columns then row.scopeEnabled else 0
  wrapperEnabled := if .cronWrapperEnabled ∈ db.columns then row.wrapperEnabled else 0
  createdAtMs := if .cronCreatedAtMs ∈ db.columns then row.createdAtMs else none
  sessionId := if .cronSessionId ∈ db.columns then row.sessionId else none

/-- A row of jobs, with defaults for the columns that are missing. -/
def readJob (db : SchemaDb) (row : JobRecord) : JobRecord where
  id := row.id
  pipeline := row.pipeline
  status := row.status
  exitCode := row.exitCode
  scopeHash := row.scopeHash
  startScope := if .jobStartScope ∈ db.columns then row.startScope else none
  endScope := if .jobEndScope ∈ db.columns then row.endScope else none
  chainId := if .jobChainId ∈ db.columns then row.chainId else none
  stderr := if .jobStderr ∈ db.columns then row.stderr else ""
  sessionId := if .jobSessionId ∈ db.columns then row.sessionId else none

def cronRows (db : SchemaDb) : List CronRecord := db.crons.map db.readCron

def jobRows (db : SchemaDb) : List JobRecord := db.jobs.map db.readJob

/-- What a step has added, and what it has made of the rows. -/
structure Upgraded (db : SchemaDb) (tables : Finset SqlTable) (columns : Finset SqlColumn)
    (jobChange : JobRecord → JobRecord) (cronChange : CronRecord → CronRecord) (after : SchemaDb) : Prop where
  version : after.userVersion = db.userVersion
  tables : after.tables = db.tables ∪ tables
  columns : after.columns = db.columns ∪ columns
  scopes : after.scopes = db.scopes
  jobs : after.jobRows = db.jobRows.map jobChange
  crons : after.cronRows = db.cronRows.map cronChange

theorem Upgraded.refl (db : SchemaDb) : Upgraded db ∅ ∅ id id db :=
  ⟨rfl, by simp, by simp, rfl, by simp, by simp⟩

theorem Upgraded.trans {last : SchemaDb} {tables tables' : Finset SqlTable} {columns columns' : Finset SqlColumn}
    {jobChange jobChange' : JobRecord → JobRecord} {cronChange cronChange' : CronRecord → CronRecord}
    (first : Upgraded db tables columns jobChange cronChange after)
    (second : Upgraded after tables' columns' jobChange' cronChange' last) :
    Upgraded db (tables ∪ tables') (columns ∪ columns') (jobChange' ∘ jobChange) (cronChange' ∘ cronChange) last where
  version := second.version.trans first.version
  tables := by rw [second.tables, first.tables, Finset.union_assoc]
  columns := by rw [second.columns, first.columns, Finset.union_assoc]
  scopes := second.scopes.trans first.scopes
  jobs := by rw [second.jobs, first.jobs, List.map_map]
  crons := by rw [second.crons, first.crons, List.map_map]

end Rows

section Statements

/-- A column that is added holds what the rows were read with before. -/
theorem fillColumn_rows {column : SqlColumn} (missing : column ∉ db.columns) :
    jobRows { db.fillColumn column with columns := insert column db.columns } = db.jobRows ∧
      cronRows { db.fillColumn column with columns := insert column db.columns } = db.cronRows := by
  cases column <;>
    simp [jobRows, cronRows, fillColumn, readJob, readCron, missing, Function.comp_def]

theorem ensureColumn_upgraded {column : SqlColumn} (table : column.table ∈ db.tables) :
    ∃ after, db.ensureColumn column = .ok after ∧ Upgraded db ∅ {column} id id after := by
  unfold ensureColumn addColumn
  split_ifs with present
  · exact ⟨db, rfl, rfl, by simp, by simp [present], rfl, by simp, by simp⟩
  · obtain ⟨jobs, crons⟩ := fillColumn_rows present
    refine ⟨_, rfl, ?_, ?_, ?_, ?_, by rw [jobs, List.map_id], by rw [crons, List.map_id]⟩
    · cases column <;> rfl
    · cases column <;> simp [fillColumn]
    · simp
    · cases column <;> rfl

theorem withColumns_ok {columns : List SqlColumn} {result : SchemaDb}
    (present : ∀ column ∈ columns, column ∈ db.columns) : db.withColumns columns result = .ok result := by
  unfold withColumns
  have none : columns.find? (· ∉ db.columns) = none := by
    rw [List.find?_eq_none]
    intro column member
    simpa using present column member
  rw [none]

/-- The rows of jobs are changed one by one, where every column that the change reads exists. -/
theorem mapJobs_upgraded (change : JobRecord → JobRecord)
    (reads : ∀ row, db.readJob (change row) = change (db.readJob row)) :
    Upgraded db ∅ ∅ change id { db with jobs := db.jobs.map change } where
  version := rfl
  tables := by simp
  columns := by simp
  scopes := rfl
  jobs := by
    have same : ∀ row ∈ db.jobs, (readJob { db with jobs := db.jobs.map change } ∘ change) row =
      (change ∘ db.readJob) row := fun row _ => reads row
    rw [jobRows, jobRows, List.map_map, List.map_map]
    exact List.map_congr_left same
  crons := by simp [cronRows, readCron]

theorem mapCrons_upgraded (change : CronRecord → CronRecord)
    (reads : ∀ row, db.readCron (change row) = change (db.readCron row)) :
    Upgraded db ∅ ∅ id change { db with crons := db.crons.map change } where
  version := rfl
  tables := by simp
  columns := by simp
  scopes := rfl
  jobs := by simp [jobRows, readJob]
  crons := by
    have same : ∀ row ∈ db.crons, (readCron { db with crons := db.crons.map change } ∘ change) row =
      (change ∘ db.readCron) row := fun row _ => reads row
    rw [cronRows, cronRows, List.map_map, List.map_map]
    exact List.map_congr_left same

theorem createTable_upgraded (table : SqlTable) : Upgraded db {table} ∅ id id (db.createTable table ∅) := by
  unfold createTable
  split_ifs with present
  · exact ⟨rfl, by simp [present], by simp, rfl, by simp, by simp⟩
  · refine ⟨rfl, ?_, by simp, rfl, ?_, ?_⟩
    · simp
    · simp [jobRows, readJob]
    · simp [cronRows, readCron]

end Statements

section Versions

/-- The version that creates the table. -/
def tableVersion : SqlTable → ℕ
  | .scopes | .scopeHead | .crons | .jobsHistory | .configCache => 1
  | .scriptRuns | .scriptItems => 9
  | .sessions => 16

/-- The version that adds the column. -/
def columnVersion : SqlColumn → ℕ
  | .cronScopeHash => 2
  | .jobStartScope | .jobEndScope => 3
  | .cronStatus => 6
  | .jobChainId => 7
  | .jobStderr => 8
  | .cronCwdOverride => 10
  | .cronScopeEnabled => 11
  | .cronWrapperEnabled => 12
  | .scriptExitCode | .scriptFailedItemIndex | .scriptFinishedAt => 13
  | .cronCreatedAtMs => 14
  | .jobSessionId | .cronSessionId => 17
  | .sessionArchivedAtMs => 18

/-- The tables and columns of a version exist. -/
structure HasSchema (db : SchemaDb) (version : ℕ) : Prop where
  tables : ∀ table, tableVersion table ≤ version → table ∈ db.tables
  columns : ∀ column, columnVersion column ≤ version → column ∈ db.columns

/-- What the step to a version makes of a row of jobs. -/
def jobStep (purged : Finset ScopeHash) : ℕ → JobRecord → JobRecord
  | 3 => coalesceScopes
  | 15 => clearJobRecord purged
  | _ => id

/-- What the step to a version makes of a row of crons. -/
def cronStep (now : ℤ) (purged : Finset ScopeHash) : ℕ → CronRecord → CronRecord
  | 6 => backfillStatus
  | 14 => initializeCreatedAt now
  | 15 => clearCronRecord purged
  | _ => id

theorem coalesceScopes_readJob (schema : db.HasSchema 3) (row : JobRecord) :
    db.readJob (coalesceScopes row) = coalesceScopes (db.readJob row) := by
  have starts := schema.columns .jobStartScope le_rfl
  have ends := schema.columns .jobEndScope le_rfl
  unfold coalesceScopes
  simp only [readJob, starts, ends, if_true]
  split_ifs <;> rfl

theorem backfillStatus_readCron (schema : db.HasSchema 6) (row : CronRecord) :
    db.readCron (backfillStatus row) = backfillStatus (db.readCron row) := by
  have status := schema.columns .cronStatus le_rfl
  unfold backfillStatus
  simp only [readCron, status, if_true]
  split_ifs <;> rfl

theorem initializeCreatedAt_readCron (schema : db.HasSchema 14) (now : ℤ) (row : CronRecord) :
    db.readCron (initializeCreatedAt now row) = initializeCreatedAt now (db.readCron row) := by
  have created := schema.columns .cronCreatedAtMs le_rfl
  unfold initializeCreatedAt
  simp only [readCron, created, if_true]
  split_ifs <;> rfl

theorem clearJobRecord_readJob (schema : db.HasSchema 14) (purged : Finset ScopeHash) (row : JobRecord) :
    db.readJob (clearJobRecord purged row) = clearJobRecord purged (db.readJob row) := by
  have starts := schema.columns .jobStartScope (by decide)
  have ends := schema.columns .jobEndScope (by decide)
  simp only [readJob, clearJobRecord, starts, ends, if_true]

theorem clearCronRecord_readCron (schema : db.HasSchema 14) (purged : Finset ScopeHash) (row : CronRecord) :
    db.readCron (clearCronRecord purged row) = clearCronRecord purged (db.readCron row) := by
  have scope := schema.columns .cronScopeHash (by decide)
  have status := schema.columns .cronStatus (by decide)
  unfold clearCronRecord
  simp only [readCron, scope, status, if_true]
  split_ifs <;> rfl

/-- A step to a version from the one before it. -/
structure Stepped (now : ℤ) (purged : Finset ScopeHash) (version : ℕ) (db after : SchemaDb) : Prop where
  schema : after.HasSchema version
  scopes : version < 15 → after.scopes = db.scopes
  jobs : after.jobRows = db.jobRows.map (jobStep purged version)
  crons : after.cronRows = db.cronRows.map (cronStep now purged version)

variable {now : ℤ} {purged : Finset ScopeHash}

theorem Upgraded.schema {version : ℕ} {tables : Finset SqlTable} {columns : Finset SqlColumn}
    {jobChange : JobRecord → JobRecord} {cronChange : CronRecord → CronRecord}
    (upgraded : Upgraded db tables columns jobChange cronChange after) (schema : db.HasSchema version)
    (newTables : ∀ table, tableVersion table = version + 1 → table ∈ tables)
    (newColumns : ∀ column, columnVersion column = version + 1 → column ∈ columns) :
    after.HasSchema (version + 1) := by
  constructor
  · intro table old
    rw [upgraded.tables, Finset.mem_union]
    rcases Nat.lt_or_eq_of_le old with older | same
    · exact .inl (schema.tables table (Nat.le_of_lt_succ older))
    · exact .inr (newTables table same)
  · intro column old
    rw [upgraded.columns, Finset.mem_union]
    rcases Nat.lt_or_eq_of_le old with older | same
    · exact .inl (schema.columns column (Nat.le_of_lt_succ older))
    · exact .inr (newColumns column same)

theorem Upgraded.stepped {version : ℕ} {tables : Finset SqlTable} {columns : Finset SqlColumn}
    (upgraded : Upgraded db tables columns (jobStep purged version) (cronStep now purged version) after)
    (schema : after.HasSchema version) : Stepped now purged version db after :=
  ⟨schema, fun _ => upgraded.scopes, upgraded.jobs, upgraded.crons⟩

/-- A version that adds columns and changes no row. -/
theorem Upgraded.columns_stepped {version : ℕ} {columns : Finset SqlColumn} (schema : db.HasSchema version)
    (upgraded : Upgraded db ∅ columns id id after) (noTables : ∀ other, tableVersion other ≠ version + 1)
    (all : ∀ other, columnVersion other = version + 1 → other ∈ columns)
    (jobs : jobStep purged (version + 1) = id) (crons : cronStep now purged (version + 1) = id) :
    Stepped now purged (version + 1) db after := by
  have schema' := upgraded.schema schema (fun other same => absurd same (noTables other)) all
  rw [← jobs, ← crons] at upgraded
  exact upgraded.stepped schema'

/-- A version that adds one column. -/
theorem ensureColumn_stepped {version : ℕ} {column : SqlColumn} (schema : db.HasSchema version)
    (table : tableVersion column.table ≤ version) (noTables : ∀ other, tableVersion other ≠ version + 1)
    (one : ∀ other, columnVersion other = version + 1 → other = column)
    (jobs : jobStep purged (version + 1) = id) (crons : cronStep now purged (version + 1) = id) :
    ∃ after, db.ensureColumn column = .ok after ∧ Stepped now purged (version + 1) db after := by
  obtain ⟨after, added, upgraded⟩ := ensureColumn_upgraded (schema.tables column.table table)
  refine ⟨after, added, upgraded.columns_stepped schema noTables ?_ jobs crons⟩
  exact fun other same => Finset.mem_singleton.mpr (one other same)

/-- A version that creates tables and changes no row. -/
theorem Upgraded.tables_stepped {version : ℕ} {tables : Finset SqlTable} (schema : db.HasSchema version)
    (upgraded : Upgraded db tables ∅ id id after)
    (all : ∀ other, tableVersion other = version + 1 → other ∈ tables)
    (noColumns : ∀ other, columnVersion other ≠ version + 1)
    (jobs : jobStep purged (version + 1) = id) (crons : cronStep now purged (version + 1) = id) :
    Stepped now purged (version + 1) db after := by
  have schema' := upgraded.schema schema all fun other same => absurd same (noColumns other)
  rw [← jobs, ← crons] at upgraded
  exact upgraded.stepped schema'

/-- Two columns of one table. -/
theorem ensureColumns_upgraded {first second : SqlColumn} (table : first.table ∈ db.tables)
    (same : second.table = first.table) :
    ∃ middle after, db.ensureColumn first = .ok middle ∧ middle.ensureColumn second = .ok after ∧
      Upgraded db ∅ {first, second} id id after := by
  obtain ⟨middle, addedFirst, upgradedFirst⟩ := ensureColumn_upgraded table
  have table' : second.table ∈ middle.tables := by
    rw [same, upgradedFirst.tables]
    exact Finset.mem_union_left _ table
  obtain ⟨after, addedSecond, upgradedSecond⟩ := ensureColumn_upgraded table'
  exact ⟨middle, after, addedFirst, addedSecond, upgradedFirst.trans upgradedSecond⟩

theorem createTable_keeps (db : SchemaDb) (table : SqlTable) (columns : Finset SqlColumn) :
    (db.createTable table columns).tables = insert table db.tables ∧
    (db.createTable table columns).scopes = db.scopes ∧
    (db.createTable table columns).jobs = db.jobs ∧ (db.createTable table columns).crons = db.crons := by
  unfold createTable
  split_ifs with present
  · exact ⟨(Finset.insert_eq_of_mem present).symm, rfl, rfl, rfl⟩
  · exact ⟨rfl, rfl, rfl, rfl⟩

/-- The first version, in a database without rows. -/
theorem migrationV1_stepped (noCrons : db.crons = []) (noJobs : db.jobs = []) :
    Stepped now purged 1 db db.migrationV1 := by
  have jobs : db.migrationV1.jobs = [] := by
    simp only [migrationV1, createTable_keeps, noJobs]
  have crons : db.migrationV1.crons = [] := by
    simp only [migrationV1, createTable_keeps, noCrons]
  refine ⟨⟨fun table old => ?_, fun column old => ?_⟩, fun _ => ?_, ?_, ?_⟩
  · simp only [migrationV1, createTable_keeps, Finset.mem_insert]
    cases table <;> simp_all [tableVersion]
  · exact absurd old (by cases column <;> decide)
  · simp only [migrationV1, createTable_keeps]
  · simp only [jobRows, jobs, noJobs, List.map_nil]
  · simp only [cronRows, crons, noCrons, List.map_nil]

theorem migrationV3_stepped (schema : db.HasSchema 2) (order : List ScopeHash) :
    ∃ after, db.migration order now 3 = .ok after ∧ Stepped now purged 3 db after := by
  obtain ⟨middle, last, addedStart, addedEnd, upgraded⟩ :=
    @ensureColumns_upgraded db .jobStartScope .jobEndScope (schema.tables .jobsHistory (by decide)) rfl
  have schema' : last.HasSchema 3 := by
    exact upgraded.schema schema (by decide) (by decide)
  have changed := upgraded.trans (mapJobs_upgraded coalesceScopes (coalesceScopes_readJob schema'))
  refine ⟨{ last with jobs := last.jobs.map coalesceScopes }, ?_,
    changed.stepped ⟨schema'.tables, schema'.columns⟩⟩
  dsimp only [migration]
  rw [addedStart]
  dsimp only [bind, Except.bind]
  rw [addedEnd]
  dsimp only
  refine withColumns_ok fun column member => schema'.columns column ?_
  rcases List.mem_pair.mp member with rfl | rfl <;> decide

theorem migrationV6_stepped (schema : db.HasSchema 5) (order : List ScopeHash) :
    ∃ after, db.migration order now 6 = .ok after ∧ Stepped now purged 6 db after := by
  obtain ⟨last, added, upgraded⟩ :=
    @ensureColumn_upgraded db .cronStatus (schema.tables .crons (by decide))
  have schema' : last.HasSchema 6 := by
    exact upgraded.schema schema (by decide) (by decide)
  have changed := upgraded.trans (mapCrons_upgraded backfillStatus (backfillStatus_readCron schema'))
  refine ⟨{ last with crons := last.crons.map backfillStatus }, ?_,
    changed.stepped ⟨schema'.tables, schema'.columns⟩⟩
  dsimp only [migration]
  rw [added]
  dsimp only [bind, Except.bind]
  refine withColumns_ok fun column member => schema'.columns column ?_
  rw [List.mem_singleton.mp member]
  decide

theorem migrationV14_stepped (schema : db.HasSchema 13) (order : List ScopeHash) :
    ∃ after, db.migration order now 14 = .ok after ∧ Stepped now purged 14 db after := by
  obtain ⟨last, added, upgraded⟩ :=
    @ensureColumn_upgraded db .cronCreatedAtMs (schema.tables .crons (by decide))
  have schema' : last.HasSchema 14 := by
    exact upgraded.schema schema (by decide) (by decide)
  have changed := upgraded.trans
    (mapCrons_upgraded (initializeCreatedAt now) (initializeCreatedAt_readCron schema' now))
  refine ⟨{ last with crons := last.crons.map (initializeCreatedAt now) }, ?_,
    changed.stepped ⟨schema'.tables, schema'.columns⟩⟩
  dsimp only [migration]
  rw [added]
  dsimp only [bind, Except.bind]
  refine withColumns_ok fun column member => schema'.columns column ?_
  rw [List.mem_singleton.mp member]
  decide

theorem migrationV13_stepped (schema : db.HasSchema 12) (order : List ScopeHash) :
    ∃ after, db.migration order now 13 = .ok after ∧ Stepped now purged 13 db after := by
  have table : .scriptRuns ∈ db.tables := schema.tables .scriptRuns (by decide)
  obtain ⟨first, second, addedCode, addedIndex, upgraded⟩ :=
    @ensureColumns_upgraded db .scriptExitCode .scriptFailedItemIndex table rfl
  have table' : .scriptRuns ∈ second.tables := by
    rw [upgraded.tables]
    exact Finset.mem_union_left _ table
  obtain ⟨last, addedTime, upgradedLast⟩ := @ensureColumn_upgraded second .scriptFinishedAt table'
  refine ⟨last, ?_, (upgraded.trans upgradedLast).columns_stepped schema (by decide) (by decide) rfl rfl⟩
  dsimp only [migration]
  rw [addedCode]
  dsimp only [bind, Except.bind]
  rw [addedIndex]
  exact addedTime

theorem migrationV17_stepped (schema : db.HasSchema 16) (order : List ScopeHash) :
    ∃ after, db.migration order now 17 = .ok after ∧ Stepped now purged 17 db after := by
  obtain ⟨middle, addedJob, upgradedJob⟩ :=
    @ensureColumn_upgraded db .jobSessionId (schema.tables .jobsHistory (by decide))
  have table : .crons ∈ middle.tables := by
    rw [upgradedJob.tables]
    exact Finset.mem_union_left _ (schema.tables .crons (by decide))
  obtain ⟨last, addedCron, upgradedCron⟩ := @ensureColumn_upgraded middle .cronSessionId table
  refine ⟨last, ?_, (upgradedJob.trans upgradedCron).columns_stepped schema (by decide) (by decide) rfl rfl⟩
  dsimp only [migration]
  rw [addedJob]
  exact addedCron

theorem clearJobRecord_empty (row : JobRecord) : clearJobRecord ∅ row = row := by
  have none (scope : Option ScopeHash) : ScopeTables.clearReference ∅ scope = scope := by
    cases scope <;> simp [ScopeTables.clearReference, Option.filter]
  simp only [clearJobRecord, none]

theorem clearCronRecord_empty (row : CronRecord) : clearCronRecord ∅ row = row := by
  have none : ScopeTables.namesPurged ∅ row.scopeHash = false := by
    cases row.scopeHash <;> simp [ScopeTables.namesPurged]
  simp [clearCronRecord, none]

/-- The purge, whose loop has found the scopes to remove. -/
theorem migrationV15_stepped (schema : db.HasSchema 14) (order : List ScopeHash)
    (found : growLoop (db.scopeTables.parentLinks order) (order.length + 1) db.scopeTables.sensitiveScopes =
      some purged) :
    ∃ after, db.migration order now 15 = .ok after ∧ Stepped now purged 15 db after := by
  have grown {other : SchemaDb} (tables : other.tables = db.tables) (columns : other.columns = db.columns) :
      other.HasSchema 15 := by
    constructor
    · intro table old
      rw [tables]
      exact schema.tables table (by cases table <;> first | decide | exact absurd old (by decide))
    · intro column old
      rw [columns]
      exact schema.columns column (by cases column <;> first | decide | exact absurd old (by decide))
  dsimp only [migration, purge]
  rw [found]
  dsimp only
  split_ifs with empty
  · refine ⟨db, rfl, grown rfl rfl, fun less => absurd less (by decide), ?_, ?_⟩
    · rw [empty]
      exact (List.map_id'' clearJobRecord_empty _).symm
    · rw [empty]
      exact (List.map_id'' clearCronRecord_empty _).symm
  · refine ⟨_, rfl, grown rfl rfl, fun less => absurd less (by decide), ?_, ?_⟩
    · exact (mapJobs_upgraded (clearJobRecord purged) (clearJobRecord_readJob schema purged)).jobs
    · exact (mapCrons_upgraded (clearCronRecord purged) (clearCronRecord_readCron schema purged)).crons

/-- Every migration succeeds, and is a step to its version. -/
theorem migration_stepped {version : ℕ} (schema : db.HasSchema version) (known : version < schemaVersion)
    (order : List ScopeHash) (noRows : version = 0 → db.crons = [] ∧ db.jobs = [])
    (found : version = 14 → growLoop (db.scopeTables.parentLinks order) (order.length + 1)
      db.scopeTables.sensitiveScopes = some purged) :
    ∃ after, db.migration order now (version + 1) = .ok after ∧ Stepped now purged (version + 1) db after := by
  unfold schemaVersion at known
  have column {column : SqlColumn} (table : tableVersion column.table ≤ version)
      (noTables : ∀ other, tableVersion other ≠ version + 1)
      (one : ∀ other, columnVersion other = version + 1 → other = column)
      (jobs : jobStep purged (version + 1) = id) (crons : cronStep now purged (version + 1) = id) :
      ∃ after, db.ensureColumn column = .ok after ∧ Stepped now purged (version + 1) db after :=
    ensureColumn_stepped schema table noTables one jobs crons
  interval_cases version
  · exact ⟨_, rfl, migrationV1_stepped (noRows rfl).1 (noRows rfl).2⟩
  · exact column (by decide) (by decide) (by decide) rfl rfl
  · exact migrationV3_stepped schema order
  · exact ⟨_, rfl, (Upgraded.refl db).columns_stepped schema (by decide) (by decide) rfl rfl⟩
  · exact ⟨_, rfl, (Upgraded.refl db).columns_stepped schema (by decide) (by decide) rfl rfl⟩
  · exact migrationV6_stepped schema order
  · exact column (by decide) (by decide) (by decide) rfl rfl
  · exact column (by decide) (by decide) (by decide) rfl rfl
  · exact ⟨_, rfl, ((createTable_upgraded .scriptRuns).trans (createTable_upgraded .scriptItems)).tables_stepped schema
      (by decide) (by decide) rfl rfl⟩
  · exact column (by decide) (by decide) (by decide) rfl rfl
  · exact column (by decide) (by decide) (by decide) rfl rfl
  · exact column (by decide) (by decide) (by decide) rfl rfl
  · exact migrationV13_stepped schema order
  · exact migrationV14_stepped schema order
  · exact migrationV15_stepped schema order (found rfl)
  · exact ⟨_, rfl, (createTable_upgraded .sessions).tables_stepped schema (by decide)
      (by decide) rfl rfl⟩
  · exact migrationV17_stepped schema order
  · exact column (by decide) (by decide) (by decide) rfl rfl

end Versions

end SchemaDb

end CueShell
