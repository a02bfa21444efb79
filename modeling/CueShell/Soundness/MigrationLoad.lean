import CueShell.Proofs.MigrationSteps

/-! # Rows of older databases

Every supported version is migrated, and what is loaded afterwards has one entry for each row, with the
text of the row. Status and scope are those of the row, unless the scope is purged: then a job has none, and a
cron has none and is paused.
-/

namespace CueShell

namespace SchemaDb

variable {db start : SchemaDb} {now later : ℤ} {purged : Finset ScopeHash} {version : ℕ}
  {order : List ScopeHash} {decode : StatusDecoders}

section Runs

/-- What the steps up to a version make of a row of jobs. -/
def jobChange (purged : Finset ScopeHash) (from' : ℕ) : ℕ → JobRecord → JobRecord
  | 0 => id
  | version + 1 =>
      if from' < version + 1 then jobStep purged (version + 1) ∘ jobChange purged from' version
      else jobChange purged from' version

/-- What the steps up to a version make of a row of crons. -/
def cronChange (now : ℤ) (purged : Finset ScopeHash) (from' : ℕ) : ℕ → CronRecord → CronRecord
  | 0 => id
  | version + 1 =>
      if from' < version + 1 then cronStep now purged (version + 1) ∘ cronChange now purged from' version
      else cronChange now purged from' version

/-- The database after the steps up to a version. -/
structure Progress (now : ℤ) (purged : Finset ScopeHash) (start : SchemaDb) (version : ℕ) (db : SchemaDb) :
    Prop where
  reached : db.userVersion = max start.userVersion version
  schema : db.HasSchema db.userVersion
  scopes : version < 15 → db.scopes = start.scopes
  jobs : db.jobRows = start.jobRows.map (jobChange purged start.userVersion version)
  crons : db.cronRows = start.cronRows.map (cronChange now purged start.userVersion version)

theorem Progress.skip (progress : Progress now purged start version db) (there : version + 1 ≤ start.userVersion) :
    Progress now purged start (version + 1) db where
  reached := by
    rw [progress.reached]
    omega
  schema := progress.schema
  scopes early := progress.scopes (Nat.lt_of_succ_lt early)
  jobs := by rw [progress.jobs, jobChange, if_neg (Nat.not_lt.mpr there)]
  crons := by rw [progress.crons, cronChange, if_neg (Nat.not_lt.mpr there)]

theorem Progress.step {after : SchemaDb} (progress : Progress now purged start version db)
    (due : start.userVersion < version + 1) (stepped : Stepped now purged (version + 1) db after) :
    Progress now purged start (version + 1) { after with userVersion := version + 1 } where
  reached := by
    show version + 1 = _
    omega
  schema := ⟨stepped.schema.tables, stepped.schema.columns⟩
  scopes early := (stepped.scopes early).trans (progress.scopes (Nat.lt_of_succ_lt early))
  jobs := by
    rw [jobChange, if_pos due, ← List.map_map, ← progress.jobs]
    exact stepped.jobs
  crons := by
    rw [cronChange, if_pos due, ← List.map_map, ← progress.crons]
    exact stepped.crons

/-- The migrations succeed, one after the other. -/
theorem migrateTo_progress (schema : start.HasSchema start.userVersion)
    (noRows : start.userVersion = 0 → start.crons = [] ∧ start.jobs = [])
    (found : growLoop (start.scopeTables.parentLinks order) (order.length + 1)
      start.scopeTables.sensitiveScopes = some purged) (known : version ≤ schemaVersion) :
    ∃ db, start.migrateTo order now version = .ok db ∧ Progress now purged start version db := by
  induction version with
  | zero => exact ⟨start, rfl, by omega, schema, fun _ => rfl, by simp [jobChange], by simp [cronChange]⟩
  | succ version ih =>
    obtain ⟨db, done, progress⟩ := ih (Nat.le_of_succ_le known)
    dsimp only [migrateTo]
    rw [done]
    dsimp only [bind, Except.bind]
    split_ifs with due
    · have reached := progress.reached
      have behind : start.userVersion < version + 1 := by omega
      have here : db.userVersion = version := by omega
      have empty : version = 0 → db.crons = [] ∧ db.jobs = [] := by
        intro first
        obtain ⟨noCrons, noJobs⟩ := noRows (by omega)
        have crons := progress.crons
        have jobs := progress.jobs
        rw [cronRows, cronRows, noCrons, List.map_nil, List.map_nil, List.map_eq_nil_iff] at crons
        rw [jobRows, jobRows, noJobs, List.map_nil, List.map_nil, List.map_eq_nil_iff] at jobs
        exact ⟨crons, jobs⟩
      have purging : version = 14 → growLoop (db.scopeTables.parentLinks order) (order.length + 1)
          db.scopeTables.sensitiveScopes = some purged := by
        intro isPurge
        have same := progress.scopes (by omega)
        have links : db.scopeTables.parentLinks order = start.scopeTables.parentLinks order := by
          unfold ScopeTables.parentLinks
          dsimp only [scopeTables]
          rw [same]
        have sensitive : db.scopeTables.sensitiveScopes = start.scopeTables.sensitiveScopes := by
          ext hash
          rw [ScopeTables.mem_sensitiveScopes, ScopeTables.mem_sensitiveScopes]
          dsimp only [ScopeTables.Sensitive, scopeTables]
          rw [same]
        rw [links, sensitive, found]
      obtain ⟨after, migrated, stepped⟩ :=
        @migration_stepped db now purged version (here ▸ progress.schema) known order empty purging
      rw [migrated]
      exact ⟨_, rfl, progress.step behind stepped⟩
    · refine ⟨db, rfl, progress.skip ?_⟩
      have reached := progress.reached
      omega

theorem jobChange_of_id {from' : ℕ} (same : jobStep purged (version + 1) = id) :
    jobChange purged from' (version + 1) = jobChange purged from' version := by
  rw [jobChange, same]
  split_ifs <;> rfl

theorem cronChange_of_id {from' : ℕ} (same : cronStep now purged (version + 1) = id) :
    cronChange now purged from' (version + 1) = cronChange now purged from' version := by
  rw [cronChange, same]
  split_ifs <;> rfl

theorem jobChange_all (from' : ℕ) : jobChange purged from' schemaVersion =
    (if from' < 15 then clearJobRecord purged else id) ∘ if from' < 3 then coalesceScopes else id := by
  have early : jobChange purged from' 2 = id := by
    rw [jobChange_of_id rfl, jobChange_of_id rfl, jobChange]
  have third : jobChange purged from' 14 = if from' < 3 then coalesceScopes else id := by
    iterate 11 rw [jobChange_of_id rfl]
    rw [jobChange, early]
    rfl
  rw [schemaVersion]
  iterate 3 rw [jobChange_of_id rfl]
  rw [jobChange, third]
  split_ifs <;> rfl

theorem cronChange_all (from' : ℕ) : cronChange now purged from' schemaVersion =
    (if from' < 15 then clearCronRecord purged else id) ∘ (if from' < 14 then initializeCreatedAt now else id) ∘
      if from' < 6 then backfillStatus else id := by
  have early : cronChange now purged from' 5 = id := by
    iterate 5 rw [cronChange_of_id rfl]
    rw [cronChange]
  have sixth : cronChange now purged from' 13 = if from' < 6 then backfillStatus else id := by
    iterate 7 rw [cronChange_of_id rfl]
    rw [cronChange, early]
    rfl
  rw [schemaVersion]
  iterate 3 rw [cronChange_of_id rfl]
  rw [cronChange, cronChange, sixth]
  split_ifs <;> rfl

end Runs

section Content

/-- The row was written by a version that is supported. -/
structure ValidCron (decode : StatusDecoders) (now : ℤ) (db : SchemaDb) (row : CronRecord) : Prop where
  id : (parseCronId row.id).isSome
  status : 6 ≤ db.userVersion → ∃ text, row.status = some text ∧ (decode.cron text).isSome
  created : 14 ≤ db.userVersion → row.createdAtMs.isSome
  past : .cronCreatedAtMs ∈ db.columns → ∀ createdAtMs, row.createdAtMs = some createdAtMs → createdAtMs ≤ now

structure ValidJob (decode : StatusDecoders) (row : JobRecord) : Prop where
  id : (parseJobId row.id).isSome
  status : (decode.job row.status).isSome

/-- The content of a database of a supported version. A new one has no rows. -/
structure Valid (decode : StatusDecoders) (now : ℤ) (db : SchemaDb) : Prop where
  supported : db.userVersion ≤ schemaVersion
  schema : db.HasSchema db.userVersion
  noRows : db.userVersion = 0 → db.crons = [] ∧ db.jobs = []
  crons : ∀ row ∈ db.crons, db.ValidCron decode now row
  jobs : ∀ row ∈ db.jobs, ValidJob decode row

/-- Every cron has a status of its own, also before there was a column for it. -/
def HasStatuses (decode : StatusDecoders) (db : SchemaDb) : Prop :=
  db.userVersion < 6 → ∀ row ∈ db.crons, .cronStatus ∈ db.columns ∧
    ∃ text, row.status = some text ∧ text ≠ "" ∧ (decode.cron text).isSome

end Content

/-- What is kept of a cron. -/
structure CronSummary where
  id : String
  schedule : String
  command : String
  status : Option CronStatus
  scope : Option ScopeHash
deriving DecidableEq, Repr

/-- What is kept of a job. -/
structure JobSummary where
  id : String
  pipeline : String
  status : Option JobStatus
  startScope : Option ScopeHash
  endScope : Option ScopeHash
deriving DecidableEq, Repr

section Summaries

def loadedCron (cron : LoadedCron) : CronSummary :=
  ⟨cron.id, cron.record.schedule, cron.record.command, some cron.record.status, cron.record.scopeHash⟩

def loadedJob (job : StoredJob) : JobSummary :=
  ⟨job.id, job.pipeline, some job.status, job.startScope, job.endScope⟩

/-- What a row of crons says. -/
def cronSummary (decode : StatusDecoders) (row : CronRecord) : CronSummary :=
  ⟨row.id, row.schedule, row.command, row.status.bind decode.cron, row.scopeHash⟩

/-- What a row of jobs says. -/
def jobSummary (decode : StatusDecoders) (row : JobRecord) : JobSummary :=
  ⟨row.id, row.pipeline, decode.job row.status, row.startScope, row.endScope⟩

def oldCron (decode : StatusDecoders) (db : SchemaDb) (row : CronRecord) : CronSummary :=
  cronSummary decode (db.readCron row)

/-- Before the third version a job has one scope, which stands for the two. -/
def oldJob (decode : StatusDecoders) (db : SchemaDb) (row : JobRecord) : JobSummary :=
  let job := jobSummary decode (db.readJob row)
  if db.userVersion < 3 then
    { job with startScope := job.startScope.or row.scopeHash, endScope := job.endScope.or row.scopeHash }
  else job

/-- A cron without its scope is paused. -/
def CronSummary.purge (purged : Finset ScopeHash) (cron : CronSummary) : CronSummary :=
  if ScopeTables.namesPurged purged cron.scope then { cron with status := some .paused, scope := none } else cron

def JobSummary.purge (purged : Finset ScopeHash) (job : JobSummary) : JobSummary :=
  { job with
    startScope := ScopeTables.clearReference purged job.startScope
    endScope := ScopeTables.clearReference purged job.endScope }

end Summaries

section Load

theorem mapM_summary {α β γ ε : Type} {load : α → Except ε β} {summary : β → γ} {expected : α → γ}
    (rows : List α) (each : ∀ row ∈ rows, ∃ entry, load row = .ok entry ∧ summary entry = expected row) :
    ∃ entries, rows.mapM load = .ok entries ∧ entries.map summary = rows.map expected := by
  induction rows with
  | nil => exact ⟨[], rfl, rfl⟩
  | cons row rows ih =>
    obtain ⟨here, later⟩ := List.forall_mem_cons.mp each
    obtain ⟨entry, loaded, same⟩ := here
    obtain ⟨entries, rest, sames⟩ := ih later
    refine ⟨entry :: entries, ?_, ?_⟩
    · rw [List.mapM_cons, loaded]
      dsimp only [bind, Except.bind]
      rw [rest]
      rfl
    · rw [List.map_cons, List.map_cons, same, sames]

/-- Rows that were changed and are loaded as expected. -/
theorem load_perm {α β γ ε : Type} {load : α → Except ε (ℕ × β)} {change : α → α} {summary : β → γ}
    {expected : α → γ} (rows : List α)
    (each : ∀ row ∈ rows, ∃ entry, load (change row) = .ok entry ∧ summary entry.2 = expected row) :
    ∃ entries, (rows.map change).mapM load = .ok entries ∧
      ((sortByNumber entries).map summary).Perm (rows.map expected) := by
  obtain ⟨entries, loaded, summaries⟩ :=
    @mapM_summary _ _ _ _ (load ∘ change) (fun entry => summary entry.2) expected rows each
  refine ⟨entries, by rw [List.mapM_map, loaded], ?_⟩
  have sorted : (sortByNumber entries).Perm (entries.map Prod.snd) :=
    (List.perm_insertionSort _ entries).map Prod.snd
  refine (sorted.map summary).trans (List.Perm.of_eq ?_)
  rw [List.map_map]
  exact summaries

/-- All columns exist, so rows are read as they are. -/
theorem readJob_eq (schema : db.HasSchema schemaVersion) (row : JobRecord) : db.readJob row = row := by
  have present (column : SqlColumn) : column ∈ db.columns :=
    schema.columns column (by revert column; decide)
  simp only [readJob, present, if_true]

theorem readCron_eq (schema : db.HasSchema schemaVersion) (row : CronRecord) : db.readCron row = row := by
  have present (column : SqlColumn) : column ∈ db.columns :=
    schema.columns column (by revert column; decide)
  simp only [readCron, present, if_true]

theorem loadJob_ok {row : JobRecord} (valid : ValidJob decode row) :
    ∃ entry, loadJob decode row = .ok entry ∧ loadedJob entry.2 = jobSummary decode row := by
  obtain ⟨number, isId⟩ := Option.isSome_iff_exists.mp valid.id
  obtain ⟨status, isStatus⟩ := Option.isSome_iff_exists.mp valid.status
  unfold loadJob
  rw [isId]
  dsimp only
  rw [isStatus]
  refine ⟨_, rfl, ?_⟩
  rw [loadedJob, jobSummary, isStatus]

theorem loadCron_ok {row : CronRecord} (isId : (parseCronId row.id).isSome)
    (isStatus : (row.status.bind decode.cron).isSome)
    (past : ∃ createdAtMs, row.createdAtMs = some createdAtMs ∧ createdAtMs ≤ later) :
    ∃ entry, loadCron decode later row = .ok entry ∧ loadedCron entry.2 = cronSummary decode row := by
  obtain ⟨number, isId⟩ := Option.isSome_iff_exists.mp isId
  obtain ⟨status, isStatus⟩ := Option.isSome_iff_exists.mp isStatus
  obtain ⟨text, isText, decodes⟩ := Option.bind_eq_some_iff.mp isStatus
  obtain ⟨createdAtMs, isCreated, past⟩ := past
  unfold loadCron
  rw [isText, isCreated]
  dsimp only
  rw [isId]
  dsimp only
  rw [decodes]
  dsimp only
  rw [if_neg (by omega)]
  refine ⟨_, rfl, ?_⟩
  rw [loadedCron, cronSummary, isStatus]

theorem jobSummary_coalesce (row : JobRecord) : jobSummary decode (coalesceScopes row) =
    { jobSummary decode row with
      startScope := row.startScope.or row.scopeHash, endScope := row.endScope.or row.scopeHash } := by
  unfold coalesceScopes
  split_ifs with missing
  · rfl
  · cases starts : row.startScope with
    | none => simp [starts] at missing
    | some first =>
      cases ends : row.endScope with
      | none => simp [ends] at missing
      | some last => simp [jobSummary, starts, ends]

theorem jobSummary_clear (row : JobRecord) :
    jobSummary decode (clearJobRecord purged row) = (jobSummary decode row).purge purged := rfl

theorem cronSummary_clear (paused : decode.cron "\"paused\"" = some .paused) (row : CronRecord) :
    cronSummary decode (clearCronRecord purged row) = (cronSummary decode row).purge purged := by
  unfold clearCronRecord CronSummary.purge
  by_cases named : ScopeTables.namesPurged purged row.scopeHash = true
  · rw [if_pos named, if_pos (show ScopeTables.namesPurged purged (cronSummary decode row).scope = true from named)]
    simp [cronSummary, paused]
  · rw [if_neg named, if_neg (show ¬ ScopeTables.namesPurged purged (cronSummary decode row).scope = true from named)]

theorem cronSummary_initialize (row : CronRecord) :
    cronSummary decode (initializeCreatedAt now row) = cronSummary decode row := by
  unfold initializeCreatedAt
  split_ifs <;> rfl

theorem JobSummary.purge_empty (job : JobSummary) : job.purge ∅ = job := by
  have none (scope : Option ScopeHash) : ScopeTables.clearReference ∅ scope = scope := by
    cases scope <;> simp [ScopeTables.clearReference, Option.filter]
  simp only [JobSummary.purge, none]

theorem CronSummary.purge_empty (cron : CronSummary) : cron.purge ∅ = cron := by
  have none : ScopeTables.namesPurged ∅ cron.scope = false := by
    cases cron.scope <;> simp [ScopeTables.namesPurged]
  simp [CronSummary.purge, none]

/-- The scopes that a migration from a version removes. -/
def removedFrom (purged : Finset ScopeHash) (from' : ℕ) : Finset ScopeHash := if from' < 15 then purged else ∅

theorem jobSummary_change (row : JobRecord) :
    jobSummary decode (jobChange purged start.userVersion schemaVersion (start.readJob row)) =
      (start.oldJob decode row).purge (removedFrom purged start.userVersion) := by
  rw [jobChange_all, Function.comp_apply]
  have older : jobSummary decode ((if start.userVersion < 3 then coalesceScopes else id) (start.readJob row)) =
      start.oldJob decode row := by
    unfold oldJob
    split_ifs
    · exact jobSummary_coalesce (start.readJob row)
    · rfl
  by_cases purges : start.userVersion < 15
  · rw [removedFrom, if_pos purges, if_pos purges, jobSummary_clear, older]
  · rw [removedFrom, if_neg purges, if_neg purges, JobSummary.purge_empty, id_eq, older]

/-- A job is loaded from the migrated database. -/
theorem loadJob_changed {row : JobRecord} (valid : ValidJob decode row) :
    ∃ entry, loadJob decode (jobChange purged start.userVersion schemaVersion (start.readJob row)) = .ok entry ∧
      loadedJob entry.2 = (start.oldJob decode row).purge (removedFrom purged start.userVersion) := by
  have same := @jobSummary_change start purged decode row
  have texts : ((start.oldJob decode row).purge (removedFrom purged start.userVersion)).id = row.id ∧
      ((start.oldJob decode row).purge (removedFrom purged start.userVersion)).status = decode.job row.status := by
    dsimp only [JobSummary.purge, oldJob]
    split_ifs <;> exact ⟨rfl, rfl⟩
  have isId : (jobChange purged start.userVersion schemaVersion (start.readJob row)).id = row.id :=
    (congrArg JobSummary.id same).trans texts.1
  have isStatus := (congrArg JobSummary.status same).trans texts.2
  dsimp only [jobSummary] at isStatus
  obtain ⟨entry, loaded, summary⟩ := @loadJob_ok decode _ ⟨isId ▸ valid.id, isStatus ▸ valid.status⟩
  exact ⟨entry, loaded, summary.trans same⟩

/-- A cron that has a status keeps it. -/
theorem backfillStatus_eq {row : CronRecord} {text : String} (isText : row.status = some text)
    (filled : text ≠ "") : backfillStatus row = row := by
  unfold backfillStatus
  rw [if_neg]
  rw [isText]
  rintro (absent | empty)
  · exact absurd absent (by simp)
  · exact filled (Option.some.inj empty)

theorem initializeCreatedAt_past {row : CronRecord}
    (past : ∀ createdAtMs, row.createdAtMs = some createdAtMs → createdAtMs ≤ now) :
    ∃ createdAtMs, (initializeCreatedAt now row).createdAtMs = some createdAtMs ∧ createdAtMs ≤ now := by
  unfold initializeCreatedAt
  split_ifs with absent
  · exact ⟨now, rfl, le_rfl⟩
  · obtain ⟨createdAtMs, found⟩ := Option.ne_none_iff_exists'.mp absent
    exact ⟨createdAtMs, found, past createdAtMs found⟩

theorem clearCronRecord_createdAtMs (row : CronRecord) :
    (clearCronRecord purged row).createdAtMs = row.createdAtMs := by
  unfold clearCronRecord
  split_ifs <;> rfl

/-- A cron that has a status is changed to what its old row says. -/
theorem cronSummary_change (paused : decode.cron "\"paused\"" = some .paused) {row : CronRecord}
    (filled : (if start.userVersion < 6 then backfillStatus else id) (start.readCron row) = start.readCron row) :
    cronSummary decode (cronChange now purged start.userVersion schemaVersion (start.readCron row)) =
      (start.oldCron decode row).purge (removedFrom purged start.userVersion) := by
  have initialized : cronSummary decode ((if start.userVersion < 14 then initializeCreatedAt now else id)
      (start.readCron row)) = start.oldCron decode row := by
    split_ifs
    · exact cronSummary_initialize (start.readCron row)
    · rfl
  rw [cronChange_all, Function.comp_apply, Function.comp_apply, filled]
  by_cases purges : start.userVersion < 15
  · rw [removedFrom, if_pos purges, if_pos purges, cronSummary_clear paused, initialized]
  · rw [removedFrom, if_neg purges, if_neg purges, CronSummary.purge_empty, id_eq, initialized]

theorem cronChange_past {row : CronRecord} (valid : start.ValidCron decode now row)
    (schema : start.HasSchema start.userVersion)
    (filled : (if start.userVersion < 6 then backfillStatus else id) (start.readCron row) = start.readCron row) :
    ∃ createdAtMs, (cronChange now purged start.userVersion schemaVersion (start.readCron row)).createdAtMs =
      some createdAtMs ∧ createdAtMs ≤ now := by
  have initialized : ∃ createdAtMs, ((if start.userVersion < 14 then initializeCreatedAt now else id)
      (start.readCron row)).createdAtMs = some createdAtMs ∧ createdAtMs ≤ now := by
    by_cases early : start.userVersion < 14
    · rw [if_pos early]
      refine initializeCreatedAt_past fun createdAtMs found => ?_
      dsimp only [readCron] at found
      split_ifs at found with present
      exact valid.past present createdAtMs found
    · have present : .cronCreatedAtMs ∈ start.columns := schema.columns _ (Nat.le_of_not_lt early)
      obtain ⟨createdAtMs, found⟩ := Option.isSome_iff_exists.mp (valid.created (Nat.le_of_not_lt early))
      refine ⟨createdAtMs, ?_, valid.past present createdAtMs found⟩
      rw [if_neg early, id_eq, readCron, if_pos present]
      exact found
  rw [cronChange_all, Function.comp_apply, Function.comp_apply, filled]
  by_cases purges : start.userVersion < 15
  · rw [if_pos purges, clearCronRecord_createdAtMs]
    exact initialized
  · rw [if_neg purges]
    exact initialized

/-- No cron takes its status from its flag. -/
theorem HasStatuses.filled (statuses : start.HasStatuses decode) {row : CronRecord} (member : row ∈ start.crons) :
    (if start.userVersion < 6 then backfillStatus else id) (start.readCron row) = start.readCron row := by
  split_ifs with early
  · obtain ⟨present, text, isText, filled, -⟩ := statuses early row member
    refine backfillStatus_eq ?_ filled
    rw [readCron, if_pos present]
    exact isText
  · rfl

theorem Valid.decodes (valid : start.Valid decode now) (statuses : start.HasStatuses decode) {row : CronRecord}
    (member : row ∈ start.crons) : (start.oldCron decode row).status.isSome := by
  dsimp only [oldCron, cronSummary, readCron]
  by_cases early : start.userVersion < 6
  · obtain ⟨present, text, isText, -, decodes⟩ := statuses early row member
    rw [if_pos present, isText]
    exact decodes
  · have late := Nat.le_of_not_lt early
    obtain ⟨text, isText, decodes⟩ := (valid.crons row member).status late
    rw [if_pos (valid.schema.columns .cronStatus late), isText]
    exact decodes

theorem CronSummary.purge_status {cron : CronSummary} (decodes : cron.status.isSome) :
    (cron.purge purged).status.isSome := by
  unfold CronSummary.purge
  split_ifs
  · rfl
  · exact decodes

theorem CronSummary.purge_id (cron : CronSummary) : (cron.purge purged).id = cron.id := by
  unfold CronSummary.purge
  split_ifs <;> rfl

/-- A cron with a status of its own is loaded from the migrated database. -/
theorem loadCron_changed (valid : start.Valid decode now) (statuses : start.HasStatuses decode)
    (paused : decode.cron "\"paused\"" = some .paused) (clock : now ≤ later) {row : CronRecord}
    (member : row ∈ start.crons) :
    ∃ entry, loadCron decode later (cronChange now purged start.userVersion schemaVersion (start.readCron row)) =
        .ok entry ∧
      loadedCron entry.2 = (start.oldCron decode row).purge (removedFrom purged start.userVersion) := by
  have filled := statuses.filled member
  have same := @cronSummary_change start now purged decode paused row filled
  obtain ⟨createdAtMs, isCreated, past⟩ :=
    @cronChange_past start now purged decode row (valid.crons row member) valid.schema filled
  have isId : (cronChange now purged start.userVersion schemaVersion (start.readCron row)).id = row.id :=
    (congrArg CronSummary.id same).trans (CronSummary.purge_id _)
  have decodes : ((cronChange now purged start.userVersion schemaVersion (start.readCron row)).status.bind
      decode.cron).isSome := by
    have status := congrArg CronSummary.status same
    dsimp only [cronSummary] at status
    rw [status]
    exact CronSummary.purge_status (valid.decodes statuses member)
  obtain ⟨entry, loaded, summary⟩ := @loadCron_ok later decode _ (isId ▸ (valid.crons row member).id) decodes
    ⟨createdAtMs, isCreated, past.trans clock⟩
  exact ⟨entry, loaded, summary.trans same⟩

end Load

section Migrate

/-- Every supported database is migrated. Its jobs are loaded as their rows say, one for each row, and so are
its crons if each has a status of its own; but a scope that is sensitive, or below one that is, is gone if the
version is old enough, and a cron in it is paused. -/
theorem migrate_keeps_rows (decode : StatusDecoders) (paused : decode.cron "\"paused\"" = some .paused)
    (now later : ℤ) (clock : now ≤ later) (db : SchemaDb) (valid : db.Valid decode now) (order : List ScopeHash)
    (listed : db.scopes.Enumerates order) :
    ∃ after removed, db.migrate order now = .ok after ∧
      (∀ hash, hash ∈ removed ↔ db.userVersion < 15 ∧ db.scopeTables.Tainted hash) ∧
      (∃ jobs, after.loadJobHistory decode = .ok jobs ∧
        (jobs.map loadedJob).Perm (db.jobs.map fun row => (db.oldJob decode row).purge removed)) ∧
      (db.HasStatuses decode → ∃ crons, after.loadCrons decode later = .ok crons ∧
        (crons.map loadedCron).Perm (db.crons.map fun row => (db.oldCron decode row).purge removed)) := by
  obtain ⟨purged, found, member⟩ :=
    @ScopeTables.growLoop_purge db.scopeTables order (order.length + 1) listed (Nat.lt_succ_self _)
  obtain ⟨after, done, progress⟩ :=
    @migrateTo_progress db now purged schemaVersion order valid.schema valid.noRows found le_rfl
  have schema : after.HasSchema schemaVersion := by
    have reached := progress.reached
    rw [max_eq_right valid.supported] at reached
    exact reached ▸ progress.schema
  have present (column : SqlColumn) : column ∈ after.columns := schema.columns column (by revert column; decide)
  have jobRows : after.jobs = db.jobs.map fun row =>
      jobChange purged db.userVersion schemaVersion (db.readJob row) := by
    have rows := progress.jobs
    rwa [SchemaDb.jobRows, SchemaDb.jobRows, List.map_id'' (readJob_eq schema), List.map_map] at rows
  have cronRows : after.crons = db.crons.map fun row =>
      cronChange now purged db.userVersion schemaVersion (db.readCron row) := by
    have rows := progress.crons
    rwa [SchemaDb.cronRows, SchemaDb.cronRows, List.map_id'' (readCron_eq schema), List.map_map] at rows
  refine ⟨after, removedFrom purged db.userVersion, ?_, fun hash => ?_, ?_, fun statuses => ?_⟩
  · rw [migrate, if_neg (Nat.not_lt.mpr valid.supported)]
    exact done
  · unfold removedFrom
    split_ifs with purges
    · simp [purges, member hash]
    · simp [purges]
  · obtain ⟨entries, loaded, perm⟩ := load_perm db.jobs fun row inside => loadJob_changed (valid.jobs row inside)
    refine ⟨sortByNumber entries, ?_, perm⟩
    rw [loadJobHistory, withColumns_ok fun column _ => present column]
    dsimp only [bind, Except.bind]
    rw [jobRows, loaded]
  · obtain ⟨entries, loaded, perm⟩ := load_perm db.crons fun row inside =>
      loadCron_changed valid statuses paused clock inside
    refine ⟨sortByNumber entries, ?_, perm⟩
    rw [loadCrons, withColumns_ok fun column _ => present column]
    dsimp only [bind, Except.bind]
    rw [cronRows, loaded]

/-- The texts that statuses are stored as. -/
def plainDecoders : StatusDecoders where
  cron text :=
    if text = "\"scheduled\"" then some .scheduled
    else if text = "\"paused\"" then some .paused
    else if text = "\"completed\"" then some .completed
    else if text = "\"expired\"" then some .expired
    else if text = "\"failed\"" then some .failed
    else none
  job text :=
    if text = "\"Pending\"" then some .pending
    else if text = "\"Running\"" then some .running
    else if text = "\"Done\"" then some .done
    else if text = "\"Failed\"" then some .failed
    else if text = "\"Killed\"" then some .killed
    else none

/-- A database of version 14, with a job and a cron in a scope that has a token. -/
def tokenDb : SchemaDb where
  userVersion := 14
  tables := Finset.univ.erase .sessions
  columns := Finset.univ.filter fun column => columnVersion column ≤ 14
  scopes := Table.empty.insert (ScopeStore.cwdHash ⟨[], "/"⟩)
    ⟨none, none, some (.encoded ⟨[("API_TOKEN", "x")], "/"⟩)⟩
  scopeHead := none
  crons := [{
    id := "C1", schedule := "every 5m", command := "echo hi", enabled := 1
    scopeHash := some (ScopeStore.cwdHash ⟨[], "/"⟩), status := some "\"scheduled\"", cwdOverride := none
    scopeEnabled := 0, wrapperEnabled := 0, createdAtMs := some 0, sessionId := none }]
  jobs := [{
    id := "J1", pipeline := "echo hi", status := "\"Done\"", exitCode := some 0
    scopeHash := some (ScopeStore.cwdHash ⟨[], "/"⟩), startScope := some (ScopeStore.cwdHash ⟨[], "/"⟩)
    endScope := none, chainId := none, stderr := "", sessionId := none }]

theorem tokenDb_valid : tokenDb.Valid plainDecoders 0 where
  supported := by decide
  schema := ⟨by decide, by decide⟩
  noRows := by decide
  crons := by
    intro row member
    obtain rfl := List.mem_singleton.mp member
    refine ⟨by decide, fun _ => ⟨_, rfl, by decide⟩, fun _ => rfl, fun _ createdAtMs found => ?_⟩
    obtain rfl := Option.some.inj found
    exact le_rfl
  jobs := by
    intro row member
    obtain rfl := List.mem_singleton.mp member
    exact ⟨by decide, by decide⟩

/-- The job and the cron are loaded again. -/
theorem migrate_keeps_rows_token :
    ∃ after removed, tokenDb.migrate [ScopeStore.cwdHash ⟨[], "/"⟩] 0 = .ok after ∧
      (∃ jobs, after.loadJobHistory plainDecoders = .ok jobs ∧ (jobs.map loadedJob).Perm
        (tokenDb.jobs.map fun row => (tokenDb.oldJob plainDecoders row).purge removed)) ∧
      ∃ crons, after.loadCrons plainDecoders 7 = .ok crons ∧ (crons.map loadedCron).Perm
        (tokenDb.crons.map fun row => (tokenDb.oldCron plainDecoders row).purge removed) := by
  have listed : tokenDb.scopes.Enumerates [ScopeStore.cwdHash ⟨[], "/"⟩] := by
    refine ⟨List.nodup_singleton _, fun hash => ?_⟩
    rw [tokenDb.scopes.mem_keys]
    simp only [tokenDb, Table.get_insert, List.mem_singleton]
    split_ifs with same <;> simp [same, Table.empty]
  obtain ⟨after, removed, done, -, jobs, crons⟩ := migrate_keeps_rows plainDecoders (by decide) 0 7 (by decide)
    tokenDb tokenDb_valid _ listed
  exact ⟨after, removed, done, jobs, crons fun early => absurd early (by decide)⟩

/-- A cron that was scheduled in a scope is loaded as paused and without it. -/
theorem migrate_pauses_cron :
    tokenDb.Valid plainDecoders 0 ∧
    tokenDb.crons.map (tokenDb.oldCron plainDecoders) =
      [⟨"C1", "every 5m", "echo hi", some .scheduled, some (ScopeStore.cwdHash ⟨[], "/"⟩)⟩] ∧
    ((tokenDb.migrate [ScopeStore.cwdHash ⟨[], "/"⟩] 0).bind fun after =>
        (after.loadCrons plainDecoders 7).map (List.map loadedCron)) =
      .ok [⟨"C1", "every 5m", "echo hi", some .paused, none⟩] := by
  refine ⟨tokenDb_valid, ?_, ?_⟩
  · rfl
  · rfl

end Migrate

end SchemaDb

end CueShell
