import CueShell.Model.Config
import CueShell.Model.CronClock
import CueShell.Model.OperationLedger
import CueShell.Model.Parser.Resolver
import CueShell.Model.Sessions

/-! # State of the scheduler

The scheduler owns the jobs, chains, crons and scripts of the daemon. It talks to the process
manager, the scope store, the resource registry and the database; their answers are given by an
environment that may answer every question differently. The reservations of the registry and the job
rows of the database are kept beside the scheduler's own tables, because they change only through
it. Identifiers are unbounded numbers. The log keeps what the scheduler was asked and what it did; no
function reads it.
-/

namespace CueShell

abbrev CronId := ℕ
abbrev ChainId := ℕ
abbrev ScriptId := ℕ

inductive SandboxUpper where
  | directory (path : String)
  | tmpfs
deriving DecidableEq, Repr

/-- An overlay sandbox; there is no other mode. -/
structure SandboxSettings where
  upper : Option SandboxUpper
deriving DecidableEq, Repr

structure LaunchOptions where
  pty : Option Bool := none
  needs : Need := []
  sandbox : Option SandboxSettings := none
deriving DecidableEq, Repr

structure ProcessJobOptions where
  cwdOverride : Option String
  sandbox : Option SandboxSettings
  wrapperEnabled : Bool
  ptyEnabled : Bool
  directOutputClient : Option ClientId
  sessionId : Option SessionId
deriving DecidableEq, Repr

structure ProcessJobContext where
  cwdOverride : Option String
  launch : LaunchOptions
  wrapperEnabled : Bool
  ptyDefault : Bool
  directOutputClient : Option ClientId
deriving DecidableEq, Repr

def ProcessJobContext.processJobOptions (context : ProcessJobContext)
    (sessionId : Option SessionId) : ProcessJobOptions where
  cwdOverride := context.cwdOverride
  sandbox := context.launch.sandbox
  wrapperEnabled := context.wrapperEnabled
  ptyEnabled := context.launch.pty.getD context.ptyDefault
  directOutputClient := context.directOutputClient
  sessionId := sessionId

def ProcessJobContext.needs (context : ProcessJobContext) : Need := context.launch.needs

structure ChainExecutionOptions where
  process : ProcessJobContext
  scopeEnabled : Bool
deriving DecidableEq, Repr

/-- Execution state of an active chain. -/
structure ChainState where
  node : ChainNode
  /-- The job of each leaf that has been started. -/
  leafJobs : Table ℕ JobId
  leafStatus : Statuses
  scopeHash : ScopeHash
  pipelineText : String
  process : ProcessJobContext
  scopeEnabled : Bool
  sessionId : Option SessionId

structure JobEntry where
  sessionId : Option SessionId
  pipelineText : String
  status : JobStatus
  exitCode : Option ℤ
  startScope : Option ScopeHash
  endScope : Option ScopeHash
  chainId : Option ChainId
  chainIndex : Option ℕ
  chainTotal : Option ℕ
  pendingReason : Option String
deriving DecidableEq, Repr

inductive CronStatus where
  | scheduled
  | paused
  | completed
  | expired
  | failed
deriving DecidableEq, Repr

def CronStatus.isRunnable : CronStatus → Bool
  | .scheduled => true
  | _ => false

def CronStatus.isTerminal : CronStatus → Bool
  | .completed | .expired | .failed => true
  | .scheduled | .paused => false

def CronSchedule.isOneshot : CronSchedule → Bool
  | .delay _ => true
  | _ => false

structure CronEntry where
  schedule : CronSchedule
  chain : ChainNode
  scopeHash : ScopeHash
  status : CronStatus
  nextTrigger : ℕ
  cwdOverride : Option String
  scopeEnabled : Bool
  wrapperEnabled : Bool
  sessionId : Option SessionId
deriving DecidableEq, Repr

/-- A row of the cron table of the database. -/
structure StoredCron where
  sessionId : Option SessionId
  schedule : String
  command : String
  status : CronStatus
  scopeHash : Option ScopeHash
  cwdOverride : Option String
  scopeEnabled : Bool
  wrapperEnabled : Bool
  /-- When the row was first written, in milliseconds. -/
  createdAtMs : ℤ
deriving DecidableEq, Repr

structure PendingWait where
  clientId : ClientId
  requestId : UInt32
deriving DecidableEq, Repr

structure ChainCompletion where
  exitCode : ℤ
  endScope : Option ScopeHash
deriving DecidableEq, Repr

structure PendingResourceAdmission where
  plan : JobPlan
  baseScope : ScopeHash
  options : ProcessJobOptions
  needs : Need
deriving DecidableEq, Repr

inductive ScriptItemResult where
  | job (jobId : JobId)
  | chain (chainId : ChainId)
  | cron (cronId : CronId)
  | message
deriving DecidableEq, Repr

structure ScriptItemInfo where
  index : ℕ
  source : String
  result : ScriptItemResult
deriving DecidableEq, Repr

structure ScriptSubmitError where
  index : ℕ
  source : String
  code : String
  message : String
deriving DecidableEq, Repr

structure PendingScriptRun where
  clientId : ClientId
  scriptId : ScriptId
  source : ScriptSource
  items : List ResolvedScriptItem
  nextIndex : ℕ
  itemScope : ScopeHash
  createdItems : List ScriptItemInfo
  lastExitCode : ℤ
  waitingIndex : Option ℕ
  sessionId : Option SessionId
deriving DecidableEq, Repr

structure EnvDelta where
  set : List (String × String) := []
  unset : List String := []
  cwd : Option String := none
deriving DecidableEq, Repr

structure ChainJobInfo where
  index : ℕ
  pipelineText : String
  status : JobStatus
  jobId : Option JobId
  startScope : Option ScopeHash
  endScope : Option ScopeHash
deriving DecidableEq, Repr

structure ChainInfo where
  id : ChainId
  pipelineText : String
  jobs : List ChainJobInfo
deriving DecidableEq, Repr

structure PageInfo where
  total : ℕ
  shown : ℕ
  limit : Option ℕ
  truncated : Bool
deriving DecidableEq, Repr

structure CronInfo where
  id : CronId
  sessionId : Option SessionId
  schedule : String
  command : String
  status : CronStatus
deriving DecidableEq, Repr

inductive OkPayload where
  | ack
  | scriptCreated (scriptId : ScriptId) (source : ScriptSource) (items : List ScriptItemInfo)
      (submitError : Option ScriptSubmitError)
  | jobCreated (jobId : JobId) (startScope : ScopeHash) (warnings : List String)
  | chainCreated (chainId : ChainId) (jobIds : List JobId) (chain : ChainInfo)
      (warnings : List String)
  | cronAdded (cronId : CronId)
  | scopeCreated (hash : ScopeHash) (summary : String)
  | jobInfo (jobId : JobId) (entry : JobEntry)
  | jobList (jobs : List (JobId × JobEntry))
  | jobListPage (jobs : List (JobId × JobEntry)) (page : PageInfo)
  | cronList (crons : List CronInfo)
  | cronListPage (crons : List CronInfo) (page : PageInfo)
  | evalText (text : String)
  | textOutput (text : String) (truncated : Bool)
  /-- Scopes, outputs, attachments and the state of scripts. -/
  | other
deriving DecidableEq, Repr

abbrev Response := ResponsePayload OkPayload

/-- A response that names no new work and tells the state of no job. -/
def Response.plain : Response → Bool
  | .ok (.scriptCreated _ _ _ _) | .ok (.jobCreated _ _ _) | .ok (.chainCreated _ _ _ _)
  | .ok (.cronAdded _) | .ok (.jobInfo _ _) => false
  | _ => true

/-- The answers of the other actors and of the libraries. Those that may change from one question to
the next take the number of the question. -/
structure Env where
  spawnJob : ℕ → JobId → Except String Unit
  killJob : ℕ → JobId → Except String Unit
  tryReserve : ℕ → JobId → Need → Except String (List Grant)
  deriveScope : ℕ → ScopeHash → EnvDelta → Except String ScopeHash
  applyScopeTransform : ℕ → ScopeHash → List String → Except String ScopeHash
  /-- The error of a database write or read, if it fails. -/
  storageError : ℕ → Option String
  zone : Zone
  /-- The wall clock, in nanoseconds since the epoch. -/
  wall : ℕ → ℤ
  /-- The monotonic clock, in nanoseconds. -/
  instant : ℕ → ℕ
  instant_mono : Monotone instant
  /-- Whether a scope is kept by the database. -/
  scopePersisted : ℕ → ScopeHash → Bool
  /-- What a request that only concerns sessions is answered. -/
  sessionAnswers : ℕ → SessionAnswers
  insertScope : ℕ → Except String ScopeHash
  /-- The change a command asks of the scope of its client, or what it is answered at once. -/
  scopeDelta : ℕ → SingleCommand → Except Response EnvDelta
  /-- The answer to a command about what is not in the tables of the scheduler. -/
  answer : ℕ → SingleCommand → Response
  scriptInfo : ℕ → Option SessionId → String → Response
  scopeDelta_plain : ∀ question command response, scopeDelta question command = .error response →
    response.plain
  answer_plain : ∀ question command, (answer question command).plain
  scriptInfo_plain : ∀ question requester id, (scriptInfo question requester id).plain
  /-- Whether the ledger of script snapshots takes no new script. -/
  snapshotsSaturated : ℕ → Bool
  /-- The owner of a finished script whose snapshot is still kept. -/
  finishedScriptOwner : ℕ → ScriptId → Option (Option SessionId)
  parseQuantity : String → Option ResourceQuantity
  /-- The order in which a hash map is walked. -/
  walk : ℕ → List ℕ → List ℕ
  walk_perm : ∀ question keys, (walk question keys).Perm keys

/-- An environment in which everything succeeds. -/
def Env.calm : Env where
  spawnJob _ _ := .ok ()
  killJob _ _ := .ok ()
  tryReserve _ _ _ := .ok []
  deriveScope _ base _ := .ok base
  applyScopeTransform _ base _ := .ok base
  storageError _ := none
  zone := .utc
  wall question := question
  instant question := question
  instant_mono := monotone_id
  scopePersisted _ _ := true
  sessionAnswers question := ⟨toString question, question, question, .ok true, none, .sorted⟩
  insertScope _ := .ok ⟨Vector.replicate 32 0⟩
  scopeDelta _ _ := .ok {}
  answer _ _ := .ok .other
  scriptInfo _ _ _ := .ok .other
  scopeDelta_plain _ _ _ refused := by cases refused
  answer_plain _ _ := rfl
  scriptInfo_plain _ _ _ := rfl
  snapshotsSaturated _ := false
  finishedScriptOwner _ _ := none
  parseQuantity _ := none
  walk _ := id
  walk_perm _ _ := .refl _

/-- What the scheduler was asked, what it was answered and what it did. -/
inductive SchedulerEvent where
  /-- A command is handled for a session, with the jobs and the sessions known at that time. -/
  | command (command : SingleCommand) (requester : Option SessionId) (jobs : Table JobId JobEntry)
      (sessions : SessionRegistry)
  /-- A chain is handed over for execution. -/
  | spawned (chain : ChainNode) (scope : ScopeHash)
  /-- A job may run in a scope that its grants were added to. -/
  | admitted (jobId : JobId) (base : ScopeHash) (grants : List Grant) (scope : ScopeHash)
  /-- A process is started, while the job holds the given grants. -/
  | launched (jobId : JobId) (plan : JobPlan) (scope : ScopeHash) (options : ProcessJobOptions)
      (held : List Grant)
  /-- A job is entered for a leaf, whose status was the given one. -/
  | entered (chainId : ChainId) (index : ℕ) (status : Option LeafStatus)
  /-- The end of a leaf asks for an advance of its chain, and hands on a scope. -/
  | advanced (chainId : ChainId) (newlyReady toCancel : List ℕ) (scope : ScopeHash)
  /-- The process manager refused to stop a leaf that has to be cancelled. -/
  | killRefused (jobId : JobId)
  /-- A job that waited for resources could not be started. -/
  | retryFailed (jobId : JobId)
  /-- The cancellation of a chain could not be stored. -/
  | cancelUnsaved (chainId : ChainId)
  /-- A chain is complete and leaves the table of active chains. -/
  | closed (chainId : ChainId) (chain : ChainState)
  /-- A client asks for the end of a job that it may see. -/
  | waits (clientId : ClientId) (requestId : UInt32) (jobId : JobId)
  | replied (clientId : ClientId) (requestId : UInt32) (response : Response)
  /-- A script with the given number of items is started. -/
  | scriptStarted (scriptId : ScriptId) (count : ℕ)
  | itemSubmitted (scriptId : ScriptId) (index : ℕ)
  | itemRejected (scriptId : ScriptId) (index : ℕ)
  | itemEnded (scriptId : ScriptId) (index : Option ℕ) (result : ScriptItemResult) (exitCode : ℤ)
  /-- A script is stopped by a user or by the end of the daemon. -/
  | scriptStopped (scriptId : ScriptId)
  | scriptFinished (scriptId : ScriptId) (exitCode : ℤ) (failedIndex : Option ℕ)

structure SchedulerState where
  nextJob : JobId
  nextCron : CronId
  nextChain : ChainId
  nextScript : ScriptId
  chains : Table ChainId ChainState
  jobToChain : Table JobId (ChainId × ℕ)
  jobs : Table JobId JobEntry
  crons : Table CronId CronEntry
  jobWaiters : Table JobId (List PendingWait)
  pendingScripts : Table ScriptId PendingScriptRun
  pendingScriptJobs : Table JobId ScriptId
  pendingScriptChains : Table ChainId ScriptId
  completedChains : Table ChainId ChainCompletion
  sessions : SessionRegistry
  /-- Jobs waiting for resource admission, in retry order. -/
  pendingResourceJobs : List JobId
  pendingResource : Table JobId PendingResourceAdmission
  /-- The grants the resource registry tracks for each job. -/
  reservations : Table JobId (List Grant)
  /-- The statuses in the job table of the database. -/
  history : Table JobId JobStatus
  /-- The cron table of the database. -/
  cronRows : Table CronId StoredCron
  /-- The number of the next question to the environment. -/
  question : ℕ
  /-- Set when a script run exceeds the number of rounds allowed to it. -/
  overrun : Bool
  log : List SchedulerEvent

def SchedulerState.new : SchedulerState where
  nextJob := 1
  nextCron := 1
  nextChain := 1
  nextScript := 1
  chains := .empty
  jobToChain := .empty
  jobs := .empty
  crons := .empty
  jobWaiters := .empty
  pendingScripts := .empty
  pendingScriptJobs := .empty
  pendingScriptChains := .empty
  completedChains := .empty
  sessions := ⟨.empty, .empty, .empty, 1⟩
  pendingResourceJobs := []
  pendingResource := .empty
  reservations := .empty
  history := .empty
  cronRows := .empty
  question := 0
  overrun := false
  log := []

abbrev Sched := StateM SchedulerState

/-- Ask the environment one question. -/
def ask {α : Type} (answer : ℕ → α) : Sched α :=
  modifyGet fun state => (answer state.question, { state with question := state.question + 1 })

def record (event : SchedulerEvent) : Sched Unit :=
  modify fun state => { state with log := state.log ++ [event] }

namespace SchedulerState

def clientScope (state : SchedulerState) (clientId : ClientId) : Option ScopeHash :=
  state.sessions.clientScope clientId

def namedSessionIdForClient (state : SchedulerState) (clientId : ClientId) : Option SessionId :=
  state.sessions.namedSessionIdForClient clientId

def wrapperEnabled (state : SchedulerState) (clientId : ClientId) (config : Config) : Bool :=
  ((state.sessions.sessionForClient clientId).bind fun session =>
    session.defaults.wrapperEnabled).getD config.wrapperEnabled

def ptyDefault (state : SchedulerState) (clientId : ClientId) : Bool :=
  ((state.sessions.sessionForClient clientId).bind fun session => session.defaults.pty).getD true

end SchedulerState

def allocJob : Sched JobId :=
  modifyGet fun state => (state.nextJob, { state with nextJob := state.nextJob + 1 })

def allocCron : Sched CronId :=
  modifyGet fun state => (state.nextCron, { state with nextCron := state.nextCron + 1 })

def allocChain : Sched ChainId :=
  modifyGet fun state => (state.nextChain, { state with nextChain := state.nextChain + 1 })

def allocScript : Sched ScriptId :=
  modifyGet fun state => (state.nextScript, { state with nextScript := state.nextScript + 1 })

end CueShell
