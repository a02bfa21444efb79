import CueShell.Model.Scope
import CueShell.ToMathlib.Marking

/-! # Scopes in the database

The tables of scopes, jobs, crons and sessions as far as scopes are stored in them, with the
statements that write them. A column of JSON text holds what was encoded in it, or text that does not
decode. Foreign keys are on: a job or a cron names a session that exists.
-/

namespace CueShell

/-- A column of JSON text. -/
inductive JsonText (α : Type) where
  | encoded (value : α)
  | corrupt
deriving DecidableEq, Repr

structure ScopeRow where
  parent : Option ScopeHash
  delta : Option (JsonText EnvDelta)
  snapshot : Option (JsonText EnvSnapshot)
deriving DecidableEq, Repr

structure StoredJob where
  id : String
  sessionId : Option SessionId
  pipeline : String
  status : JobStatus
  exitCode : Option ℤ
  startScope : Option ScopeHash
  endScope : Option ScopeHash
  chainId : Option String
  stderr : String
deriving DecidableEq, Repr

/-- The column `scope_hash` is written with the start scope. -/
structure JobRow where
  job : StoredJob
  scopeHash : Option ScopeHash
deriving DecidableEq, Repr

structure CronRow where
  cron : StoredCron
  enabled : Bool
deriving DecidableEq, Repr

/-- The tables that a scope is named in. -/
structure ScopeTables where
  scopes : Table ScopeHash ScopeRow
  /-- The one row of a table that is no longer written. -/
  scopeHead : Option ScopeHash
  jobs : Table String JobRow
  crons : Table String CronRow

structure Database extends ScopeTables where
  sessions : Table SessionId StoredSession

def Database.empty : Database where
  scopes := .empty
  scopeHead := none
  jobs := .empty
  crons := .empty
  sessions := .empty

/-- Whether a scope was stored or intentionally kept in memory only. -/
inductive ScopePersistence where
  | persisted
  | volatileSensitiveEnvironment
  | volatileParent
deriving DecidableEq, Repr

inductive StorageError where
  | corruptDelta
  | corruptSnapshot
  /-- A persisted job, cron or session still references a scope that is not marked. -/
  | unmarkedReference
  | uniqueSessionName
  | foreignKey
deriving DecidableEq, Repr

namespace Database

variable (db : Database)

section Scopes

def isPersistedScope (hash : ScopeHash) : Bool := (db.scopes.get hash).isSome

/-- A scope that is not persisted is stored as `NULL`. -/
def durableScopeReference (scope : Option ScopeHash) : Option ScopeHash :=
  scope.filter db.isPersistedScope

/-- A row that is there already stays as it is. -/
def insertScope (scope : Scope) : ScopePersistence × Database :=
  if scopeContainsSensitiveEnvironment scope then (.volatileSensitiveEnvironment, db)
  else if scope.parent.any fun parent => !db.isPersistedScope parent then (.volatileParent, db)
  else
    let row : ScopeRow := ⟨scope.parent, scope.delta.map .encoded, scope.snapshot.map .encoded⟩
    (.persisted, { db with scopes :=
      if db.isPersistedScope scope.hash then db.scopes else db.scopes.insert scope.hash row })

/-- Decode a column of JSON text. -/
def decodeColumn {α : Type} (error : StorageError) : Option (JsonText α) → Except StorageError (Option α)
  | none => .ok none
  | some (.encoded value) => .ok (some value)
  | some .corrupt => .error error

def scopeFromRow (hash : ScopeHash) (row : ScopeRow) : Except StorageError Scope := do
  let delta ← decodeColumn .corruptDelta row.delta
  let snapshot ← decodeColumn .corruptSnapshot row.snapshot
  .ok ⟨hash, row.parent, delta, snapshot⟩

def getScope (hash : ScopeHash) : Except StorageError (Option Scope) :=
  match db.scopes.get hash with
  | none => .ok none
  | some row => (scopeFromRow hash row).map some

/-- Whether a job, a cron or a session names the scope. -/
def references (hash : ScopeHash) : Bool :=
  (decide (∃ id ∈ db.jobs.keys, (db.jobs.get id).any fun row =>
    row.scopeHash = some hash ∨ row.job.startScope = some hash ∨ row.job.endScope = some hash)) ||
  (decide (∃ id ∈ db.crons.keys, (db.crons.get id).any fun row => row.cron.scopeHash = some hash)) ||
  decide (∃ id ∈ db.sessions.keys, (db.sessions.get id).any fun row => row.scopeHash = some hash)

/-- Delete every scope outside the given set, unless one of them is referenced. -/
def sweepScopes (reachable : Finset ScopeHash) : Except StorageError (ℕ × Database) :=
  if ∃ hash ∈ db.scopes.keys, hash ∉ reachable ∧ db.references hash then .error .unmarkedReference
  else
    let swept := db.scopes.retain fun hash _ => hash ∈ reachable
    .ok (db.scopes.size - swept.size,
      { db with scopes := swept, scopeHead := db.scopeHead.filter (· ∈ reachable) })

end Scopes

section Rows

def upsertSession (session : StoredSession) : Except StorageError (Bool × Database) :=
  let scopeHash := db.durableScopeReference session.scopeHash
  let old := db.sessions.get session.id
  if ∃ id ∈ db.sessions.keys, id ≠ session.id ∧
      (db.sessions.get id).any fun other => other.name = session.name then .error .uniqueSessionName
  else
    let row := { session with
      scopeHash := scopeHash
      createdAtMs := (old.map StoredSession.createdAtMs).getD session.createdAtMs }
    .ok (scopeHash.isSome, { db with sessions := db.sessions.insert session.id row })

/-- A session that a row names exists. -/
def sessionExists (sessionId : Option SessionId) : Bool :=
  sessionId.all fun id => (db.sessions.get id).isSome

def upsertJobHistory (job : StoredJob) : Except StorageError Database :=
  let startScope := db.durableScopeReference job.startScope
  let endScope := db.durableScopeReference job.endScope
  let row : JobRow := ⟨{ job with startScope := startScope, endScope := endScope }, startScope⟩
  if db.sessionExists job.sessionId then .ok { db with jobs := db.jobs.insert job.id row }
  else .error .foreignKey

/-- A cron whose scope is not persisted is stored without it, and paused. -/
def upsertCron (id : String) (cron : StoredCron) : Except StorageError Database :=
  let volatileScope := cron.scopeHash.any fun hash => !db.isPersistedScope hash
  let scopeHash := if volatileScope then none else cron.scopeHash
  let persistedStatus := if volatileScope then .paused else cron.status
  let createdAtMs := ((db.crons.get id).map fun row => row.cron.createdAtMs).getD cron.createdAtMs
  let row : CronRow :=
    ⟨{ cron with scopeHash := scopeHash, status := persistedStatus, createdAtMs := createdAtMs },
      persistedStatus.isRunnable⟩
  if db.sessionExists cron.sessionId then .ok { db with crons := db.crons.insert id row }
  else .error .foreignKey

def deleteCron (id : String) : Database := { db with crons := db.crons.erase id }

/-- Delete the given jobs. -/
def pruneJobHistory (removed : List String) : Database :=
  { db with jobs := removed.foldl Table.erase db.jobs }

end Rows

end Database

section Purge

/-- Corrupt text cannot be proven safe. -/
def persistedScopeHasSensitiveEnvironment (row : ScopeRow) : Bool :=
  (row.delta.any fun
    | .encoded delta => (delta.set.map Prod.fst).any isSensitiveEnvName
    | .corrupt => true) ||
  row.snapshot.any fun
    | .encoded snapshot => snapshot.env.names.any isSensitiveEnvName
    | .corrupt => true

structure SensitiveScopePurgeReport where
  removedScopes : ℕ := 0
  clearedJobRows : ℕ := 0
  clearedCrons : ℕ := 0
  disabledScopeCrons : ℕ := 0
deriving DecidableEq, Repr

namespace ScopeTables

variable (db : ScopeTables)

/-- The scopes that are sensitive by themselves. -/
def sensitiveScopes : Finset ScopeHash :=
  db.scopes.keys.filter fun hash => (db.scopes.get hash).any persistedScopeHasSensitiveEnvironment

/-- The hash and parent of each row, in the order the table is read. -/
def parentLinks (order : List ScopeHash) : List (ScopeHash × Option ScopeHash) :=
  order.map fun hash => (hash, (db.scopes.get hash).bind ScopeRow.parent)

/-- A reference to a purged scope becomes `NULL`. -/
def clearReference (purged : Finset ScopeHash) (scope : Option ScopeHash) : Option ScopeHash :=
  scope.filter (· ∉ purged)

/-- Whether a column names a purged scope. -/
def namesPurged (purged : Finset ScopeHash) (scope : Option ScopeHash) : Bool := scope.any (· ∈ purged)

def JobRow.namesAny (purged : Finset ScopeHash) (row : JobRow) : Bool :=
  namesPurged purged row.scopeHash || namesPurged purged row.job.startScope ||
    namesPurged purged row.job.endScope

def clearJob (purged : Finset ScopeHash) (row : JobRow) : JobRow where
  job := { row.job with
    startScope := clearReference purged row.job.startScope
    endScope := clearReference purged row.job.endScope }
  scopeHash := clearReference purged row.scopeHash

/-- A cron without its scope is paused. -/
def clearCron (purged : Finset ScopeHash) (row : CronRow) : CronRow :=
  if namesPurged purged row.cron.scopeHash then
    ⟨{ row.cron with scopeHash := none, status := .paused }, false⟩
  else row

def removePurged (purged : Finset ScopeHash) : SensitiveScopePurgeReport × ScopeTables :=
  let kept := db.scopes.retain fun hash _ => hash ∉ purged
  ({ removedScopes := db.scopes.size - kept.size
     clearedJobRows := (db.jobs.keys.filter fun id =>
       (db.jobs.get id).any (JobRow.namesAny purged)).card
     clearedCrons := (db.crons.keys.filter fun id =>
       (db.crons.get id).any fun row => namesPurged purged row.cron.scopeHash).card
     disabledScopeCrons := (db.crons.keys.filter fun id =>
       (db.crons.get id).any fun row => row.enabled && namesPurged purged row.cron.scopeHash).card },
   { scopes := kept
     scopeHead := clearReference purged db.scopeHead
     jobs := db.jobs.mapValues fun _ => clearJob purged
     crons := db.crons.mapValues fun _ => clearCron purged })

/-- Remove the sensitive scopes with their descendants, and what names them. The value `none` stands
for a loop that does not end within the given rounds. -/
def purgeSensitiveScopeHistory (order : List ScopeHash) (rounds : ℕ) :
    Option (SensitiveScopePurgeReport × ScopeTables) :=
  (growLoop (db.parentLinks order) rounds db.sensitiveScopes).map fun purged =>
    if purged = ∅ then ({}, db) else db.removePurged purged

end ScopeTables

end Purge

end CueShell
