import CueShell.Model.Scheduler.Queries
import CueShell.Model.Storage
import Mathlib.Data.List.Sort

/-! # Schema migrations

A database of an older version lacks tables and columns. A row is kept here with a field for every
column; a field whose column is missing has no meaning, and adding the column writes its default there.
Columns of scope hashes hold whole digests. The texts of statuses are decoded by the JSON library, which is a
parameter.
-/

namespace CueShell

inductive SqlTable where
  | scopes
  | scopeHead
  | crons
  | jobsHistory
  | configCache
  | scriptRuns
  | scriptItems
  | sessions
deriving DecidableEq, Repr

/-- The columns that are added by a migration if they are missing. -/
inductive SqlColumn where
  | cronScopeHash
  | cronStatus
  | cronCwdOverride
  | cronScopeEnabled
  | cronWrapperEnabled
  | cronCreatedAtMs
  | cronSessionId
  | jobStartScope
  | jobEndScope
  | jobChainId
  | jobStderr
  | jobSessionId
  | scriptExitCode
  | scriptFailedItemIndex
  | scriptFinishedAt
  | sessionArchivedAtMs
deriving DecidableEq, Repr

def SqlColumn.table : SqlColumn → SqlTable
  | .cronScopeHash | .cronStatus | .cronCwdOverride | .cronScopeEnabled | .cronWrapperEnabled
  | .cronCreatedAtMs | .cronSessionId => .crons
  | .jobStartScope | .jobEndScope | .jobChainId | .jobStderr | .jobSessionId => .jobsHistory
  | .scriptExitCode | .scriptFailedItemIndex | .scriptFinishedAt => .scriptRuns
  | .sessionArchivedAtMs => .sessions

structure CronRecord where
  id : String
  schedule : String
  command : String
  enabled : ℤ
  scopeHash : Option ScopeHash
  status : Option String
  cwdOverride : Option String
  scopeEnabled : ℤ
  wrapperEnabled : ℤ
  createdAtMs : Option ℤ
  sessionId : Option SessionId
deriving DecidableEq, Repr

structure JobRecord where
  id : String
  pipeline : String
  status : String
  exitCode : Option ℤ
  scopeHash : Option ScopeHash
  startScope : Option ScopeHash
  endScope : Option ScopeHash
  chainId : Option String
  stderr : String
  sessionId : Option SessionId
deriving DecidableEq, Repr

structure SchemaDb where
  userVersion : ℕ
  tables : Finset SqlTable
  columns : Finset SqlColumn
  scopes : Table ScopeHash ScopeRow
  scopeHead : Option ScopeHash
  crons : List CronRecord
  jobs : List JobRecord

inductive SqlError where
  | newerVersion (version : ℕ)
  | noSuchTable (table : SqlTable)
  | noSuchColumn (column : SqlColumn)
  | duplicateColumn (column : SqlColumn)
  /-- The purge takes more rounds than it is given. -/
  | rounds
  | invalidId (id : String)
  | unknownStatus (id : String)
  /-- A column that is read as a number or a text is `NULL`. -/
  | nullColumn (id : String)
  | createdInFuture (id : String)
deriving DecidableEq, Repr

def schemaVersion : ℕ := 18

namespace SchemaDb

variable (db : SchemaDb)

section Statements

/-- `CREATE TABLE IF NOT EXISTS`, with the given ones of the columns above. -/
def createTable (table : SqlTable) (columns : Finset SqlColumn) : SchemaDb :=
  if table ∈ db.tables then db
  else { db with tables := insert table db.tables, columns := db.columns ∪ columns }

/-- What a new column holds in the rows that are there. -/
def fillColumn : SqlColumn → SchemaDb
  | .cronScopeHash => { db with crons := db.crons.map fun row => { row with scopeHash := none } }
  | .cronStatus => { db with crons := db.crons.map fun row => { row with status := none } }
  | .cronCwdOverride => { db with crons := db.crons.map fun row => { row with cwdOverride := none } }
  | .cronScopeEnabled => { db with crons := db.crons.map fun row => { row with scopeEnabled := 0 } }
  | .cronWrapperEnabled => { db with crons := db.crons.map fun row => { row with wrapperEnabled := 0 } }
  | .cronCreatedAtMs => { db with crons := db.crons.map fun row => { row with createdAtMs := none } }
  | .cronSessionId => { db with crons := db.crons.map fun row => { row with sessionId := none } }
  | .jobStartScope => { db with jobs := db.jobs.map fun row => { row with startScope := none } }
  | .jobEndScope => { db with jobs := db.jobs.map fun row => { row with endScope := none } }
  | .jobChainId => { db with jobs := db.jobs.map fun row => { row with chainId := none } }
  | .jobStderr => { db with jobs := db.jobs.map fun row => { row with stderr := "" } }
  | .jobSessionId => { db with jobs := db.jobs.map fun row => { row with sessionId := none } }
  | .scriptExitCode | .scriptFailedItemIndex | .scriptFinishedAt | .sessionArchivedAtMs => db

/-- `ALTER TABLE ADD COLUMN`. -/
def addColumn (column : SqlColumn) : Except SqlError SchemaDb :=
  if column.table ∉ db.tables then .error (.noSuchTable column.table)
  else if column ∈ db.columns then .error (.duplicateColumn column)
  else .ok { db.fillColumn column with columns := insert column db.columns }

/-- Add a column unless it exists. -/
def ensureColumn (column : SqlColumn) : Except SqlError SchemaDb :=
  if column ∈ db.columns then .ok db else db.addColumn column

/-- A statement over columns that must exist. -/
def withColumns (columns : List SqlColumn) (result : SchemaDb) : Except SqlError SchemaDb :=
  match columns.find? (· ∉ db.columns) with
  | some column => .error (.noSuchColumn column)
  | none => .ok result

end Statements

section Versions

def migrationV1 : SchemaDb :=
  ((((db.createTable .scopes ∅).createTable .scopeHead ∅).createTable .crons
    {.cronScopeHash, .cronCwdOverride, .cronScopeEnabled, .cronWrapperEnabled, .cronCreatedAtMs}).createTable
    .jobsHistory {.jobStartScope, .jobEndScope}).createTable .configCache ∅

/-- `COALESCE` of the scopes of a job with its one older column. -/
def coalesceScopes (row : JobRecord) : JobRecord :=
  if row.startScope.isNone || row.endScope.isNone then
    { row with startScope := row.startScope.or row.scopeHash, endScope := row.endScope.or row.scopeHash }
  else row

/-- The status of a cron that has none, from its flag. -/
def backfillStatus (row : CronRecord) : CronRecord :=
  if row.status = none ∨ row.status = some "" then
    { row with status := some (if row.enabled ≠ 0 then "scheduled" else "paused") }
  else row

def initializeCreatedAt (now : ℤ) (row : CronRecord) : CronRecord :=
  if row.createdAtMs = none then { row with createdAtMs := some now } else row

/-- The scopes as the purge reads them. -/
def scopeTables : ScopeTables where
  scopes := db.scopes
  scopeHead := db.scopeHead
  jobs := .empty
  crons := .empty

def clearJobRecord (purged : Finset ScopeHash) (row : JobRecord) : JobRecord :=
  { row with
    scopeHash := ScopeTables.clearReference purged row.scopeHash
    startScope := ScopeTables.clearReference purged row.startScope
    endScope := ScopeTables.clearReference purged row.endScope }

def clearCronRecord (purged : Finset ScopeHash) (row : CronRecord) : CronRecord :=
  if ScopeTables.namesPurged purged row.scopeHash then
    { row with scopeHash := none, enabled := 0, status := some "\"paused\"" }
  else row

/-- The purge of `ScopeTables`, over the rows of an older version. -/
def purge (order : List ScopeHash) : Except SqlError SchemaDb :=
  match growLoop (db.scopeTables.parentLinks order) (order.length + 1) db.scopeTables.sensitiveScopes with
  | none => .error .rounds
  | some purged =>
      if purged = ∅ then .ok db
      else .ok { db with
        scopes := db.scopes.retain fun hash _ => hash ∉ purged
        scopeHead := ScopeTables.clearReference purged db.scopeHead
        jobs := db.jobs.map (clearJobRecord purged)
        crons := db.crons.map (clearCronRecord purged) }

/-- What is done to reach a version from the one before it. -/
def migration (order : List ScopeHash) (now : ℤ) (db : SchemaDb) : ℕ → Except SqlError SchemaDb
  | 1 => .ok db.migrationV1
  | 2 => db.ensureColumn .cronScopeHash
  | 3 => do
      let db ← db.ensureColumn .jobStartScope
      let db ← db.ensureColumn .jobEndScope
      db.withColumns [.jobStartScope, .jobEndScope] { db with jobs := db.jobs.map coalesceScopes }
  | 6 => do
      let db ← db.ensureColumn .cronStatus
      db.withColumns [.cronStatus] { db with crons := db.crons.map backfillStatus }
  | 7 => db.ensureColumn .jobChainId
  | 8 => db.ensureColumn .jobStderr
  | 9 => .ok ((db.createTable .scriptRuns ∅).createTable .scriptItems ∅)
  | 10 => db.ensureColumn .cronCwdOverride
  | 11 => db.ensureColumn .cronScopeEnabled
  | 12 => db.ensureColumn .cronWrapperEnabled
  | 13 => do
      let db ← db.ensureColumn .scriptExitCode
      let db ← db.ensureColumn .scriptFailedItemIndex
      db.ensureColumn .scriptFinishedAt
  | 14 => do
      let db ← db.ensureColumn .cronCreatedAtMs
      db.withColumns [.cronCreatedAtMs] { db with crons := db.crons.map (initializeCreatedAt now) }
  | 15 => db.purge order
  | 16 => .ok (db.createTable .sessions ∅)
  | 17 => do
      let db ← db.ensureColumn .jobSessionId
      db.ensureColumn .cronSessionId
  | 18 => db.ensureColumn .sessionArchivedAtMs
  | _ => .ok db

/-- The migrations up to a version, each unless the database is already there. -/
def migrateTo (order : List ScopeHash) (now : ℤ) (db : SchemaDb) : ℕ → Except SqlError SchemaDb
  | 0 => .ok db
  | version + 1 => do
      let db ← db.migrateTo order now version
      if db.userVersion < version + 1 then do
        let db ← db.migration order now (version + 1)
        .ok { db with userVersion := version + 1 }
      else .ok db

def migrate (order : List ScopeHash) (now : ℤ) : Except SqlError SchemaDb :=
  if schemaVersion < db.userVersion then .error (.newerVersion db.userVersion)
  else db.migrateTo order now schemaVersion

end Versions

end SchemaDb

structure LoadedCron where
  id : String
  record : StoredCron
  /-- How long ago the row was written, in milliseconds. -/
  elapsed : ℕ
deriving DecidableEq, Repr

namespace SchemaDb

section Load

/-- What `serde_json` decodes a status from. -/
structure StatusDecoders where
  cron : String → Option CronStatus
  job : String → Option JobStatus

variable (decode : StatusDecoders) (db : SchemaDb)

/-- The rows in the order of their numbers. -/
def sortByNumber {α : Type} (rows : List (ℕ × α)) : List α :=
  (rows.insertionSort fun first second => first.1 ≤ second.1).map Prod.snd

def loadJob (row : JobRecord) : Except SqlError (ℕ × StoredJob) :=
  match parseJobId row.id with
  | none => .error (.invalidId row.id)
  | some number =>
      match decode.job row.status with
      | none => .error (.unknownStatus row.id)
      | some status => .ok (number,
          { id := row.id, sessionId := row.sessionId, pipeline := row.pipeline, status := status
            exitCode := row.exitCode, startScope := row.startScope, endScope := row.endScope
            chainId := row.chainId, stderr := row.stderr })

def jobColumns : List SqlColumn := [.jobSessionId, .jobStartScope, .jobEndScope, .jobChainId, .jobStderr]

def loadJobHistory : Except SqlError (List StoredJob) := do
  let db ← db.withColumns jobColumns db
  let jobs ← db.jobs.mapM (loadJob decode)
  .ok (sortByNumber jobs)

def loadCron (now : ℤ) (row : CronRecord) : Except SqlError (ℕ × LoadedCron) :=
  match row.status, row.createdAtMs with
  | some text, some createdAtMs =>
      match parseCronId row.id with
      | none => .error (.invalidId row.id)
      | some number =>
          match decode.cron text with
          | none => .error (.unknownStatus row.id)
          | some status =>
              if now < createdAtMs then .error (.createdInFuture row.id)
              else .ok (number,
                { id := row.id
                  record :=
                    { sessionId := row.sessionId, schedule := row.schedule, command := row.command
                      status := status, scopeHash := row.scopeHash, cwdOverride := row.cwdOverride
                      scopeEnabled := row.scopeEnabled ≠ 0, wrapperEnabled := row.wrapperEnabled ≠ 0
                      createdAtMs := createdAtMs }
                  elapsed := (now - createdAtMs).toNat })
  | _, _ => .error (.nullColumn row.id)

def cronColumns : List SqlColumn :=
  [.cronSessionId, .cronScopeHash, .cronStatus, .cronCwdOverride, .cronScopeEnabled, .cronWrapperEnabled,
    .cronCreatedAtMs]

def loadCrons (now : ℤ) : Except SqlError (List LoadedCron) := do
  let db ← db.withColumns cronColumns db
  let crons ← db.crons.mapM (loadCron decode now)
  .ok (sortByNumber crons)

end Load

end SchemaDb

end CueShell
