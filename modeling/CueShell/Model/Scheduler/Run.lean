import CueShell.Model.Scheduler.Commands

/-! # The loop of the scheduler

One message after another is handled to its end. Between messages the timer fires the due crons. The
loop starts from the jobs and crons of the database, in which no job is unfinished, and ends with a
shutdown. Anonymous sessions without clients are swept before every turn.
-/

namespace CueShell

variable (env : Env) (config : Config)

def commandStartsExecution : ResolvedCommand → Bool
  | .script _ _ _ => true
  | .single (.run _ _) | .single (.cron _ _ _) | .single (.retry _) | .single (.resume _) => true
  | .single _ => false

section Messages

def reply (clientId : ClientId) (requestId : UInt32) (response : Response) : Sched Unit :=
  record (.replied clientId requestId response)

/-- The answer to a `:wait`, if it can be given at once. -/
def handleWaitCommand (id : String) (clientId : ClientId) (requestId : UInt32) :
    Sched (Option Response) := do
  match parseJobId id with
  | none =>
      if "S".toList.isPrefixOf id.toList then
        return some (errorResponse "NOT_SUPPORTED" "`:wait` currently supports job IDs only")
      else return some (errorResponse "NOT_FOUND" (id ++ " not found"))
  | some jobId => do
      let requester := (← get).namedSessionIdForClient clientId
      if ← authorizeSessionOwnedTarget env requester (.job jobId) then do
        let state ← get
        match state.jobs.get jobId with
        | none => return some (errorResponse "NOT_FOUND" ("job " ++ id ++ " not found"))
        | some entry => do
            record (.waits clientId requestId jobId)
            if entry.status.isTerminal then return some (.ok (.jobInfo jobId entry))
            else do
              let waiters := (state.jobWaiters.get jobId).getD [] ++ [⟨clientId, requestId⟩]
              modify fun state => { state with jobWaiters := state.jobWaiters.insert jobId waiters }
              return none
      else
        return some (errorResponse "NOT_FOUND" ((SessionOwnedTarget.job jobId).display ++ " not found"))

/-- The number of script items that have not been submitted. -/
def SchedulerState.openItems (state : SchedulerState) : ℕ :=
  state.pendingScripts.total fun pending => pending.items.length

/-- What a script that goes on may do while one message is handled. -/
def continuePendingScript (rounds : ℕ) (pending : PendingScriptRun) : Sched Unit := do
  let _ ← submitPendingScriptNext env config rounds pending false

def createIsolatedScriptScope (clientId : ClientId) : Sched (Except Response ScopeHash) := do
  match (← get).clientScope clientId with
  | none => return .error missingSessionResponse
  | some base => do
      match ← ask fun question => env.deriveScope question base {} with
      | .error error => return .error (errorResponse "INTERNAL" error)
      | .ok scope => return .ok scope

def startPendingScriptRun (source : ScriptSource) (items : List ResolvedScriptItem)
    (clientId : ClientId) : Sched (Option Response) := do
  if ← ask env.snapshotsSaturated then
    return some (errorResponse "INVALID_STATE"
      "script recovery identity ledger is saturated; refusing a new script")
  else do
    let scriptId ← allocScript
    match ← createIsolatedScriptScope env clientId with
    | .error response => return some response
    | .ok itemScope => do
        let state ← get
        let pending : PendingScriptRun :=
          { clientId := clientId
            scriptId := scriptId
            source := source
            items := items
            nextIndex := 0
            itemScope := itemScope
            createdItems := []
            lastExitCode := 0
            waitingIndex := none
            sessionId := state.namedSessionIdForClient clientId }
        record (.scriptStarted scriptId items.length)
        submitPendingScriptNext env config (items.length + state.openItems + 1) pending true

/-- A command that is neither `:wait` nor a file script. -/
def handleCommand (command : SingleCommand) (clientId : ClientId) : Sched Response := do
  let rounds := (← get).openItems + 1
  handleCommandWithScope env config (continuePendingScript env config rounds) command clientId {}

def evalCommand (command : ResolvedCommand) (clientId : ClientId) (requestId : UInt32) :
    Sched (Option Response) :=
  match command with
  | .single (.wait id) => handleWaitCommand env id clientId requestId
  | .single command => do return some (← handleCommand env config command clientId)
  | .script _ (.file path) items => startPendingScriptRun env config (.file path) items clientId
  | .script _ .inline _ =>
      return some (errorResponse "NOT_SUPPORTED"
        "script commands must enter the scheduler through the file-script runner")

/-- Whether a command is turned away before it is looked at. -/
def refusal (closed : Bool) (state : SchedulerState) (command : ResolvedCommand)
    (clientId : ClientId) : Option Response :=
  if (state.sessions.sessionForClient clientId).isNone then
    some (errorResponse "INVALID_REQUEST" "client session handshake required")
  else if closed && commandStartsExecution command then
    some (errorResponse "DAEMON_DRAINING" "daemon is draining; new execution admission is closed")
  else none

/-- The exit of a process is reported. -/
def jobFinished (jobId : JobId) (exitCode : ℤ) : Sched Unit := do
  handleJobFinished env jobId exitCode
  let rounds := (← get).openItems + 1
  advancePendingScriptsAfterTerminalJob env (continuePendingScript env config rounds) jobId exitCode

end Messages

section Sessions

/-- The work of a session that keeps it from being archived. -/
def archiveWork (walk : List ℕ → List ℕ) (state : SchedulerState) (sessionId : SessionId) :
    Option String :=
  let openJob := (walk (state.jobs.keys.sort (· ≤ ·))).find? fun jobId =>
    (state.jobs.get jobId).any fun entry =>
      entry.sessionId = some sessionId && !entry.status.isTerminal
  let owns {ν : Type} (table : Table ℕ ν) (owner : ν → Option SessionId) : Bool :=
    (table.keys.sort (· ≤ ·)).any fun key =>
      (table.get key).any fun entry => owner entry = some sessionId
  match openJob with
  | some jobId =>
      some ("named session has non-terminal job " ++ jobText jobId ++
        "; wait for or cancel it before archiving")
  | none =>
      if owns state.pendingScripts PendingScriptRun.sessionId then
        some "named session has pending script work; wait for or cancel it before archiving"
      else if owns state.chains ChainState.sessionId then
        some "named session has pending chain work; wait for or cancel it before archiving"
      else if owns state.crons CronEntry.sessionId then
        some "named session owns a cron; remove it explicitly before archiving"
      else none

def connectMessage (clientId : ClientId) (sessionId : SessionId) (refresh : Bool) : Sched Unit := do
  let insertScope ← ask env.insertScope
  let answers ← ask env.sessionAnswers
  modify fun state => { state with sessions :=
    (state.sessions.connectSession clientId sessionId refresh insertScope answers.now).2 }

def sessionMessage (clientId : ClientId) (command : SessionCommand) : Sched SessionCommandResult := do
  let answers ← ask env.sessionAnswers
  let walk ← ask env.walk
  let state ← get
  let (result, sessions) :=
    state.sessions.handleSessionCommand answers (archiveWork walk state) clientId command
  modify fun state => { state with sessions := sessions }
  return result

def disconnectMessage (clientId : ClientId) : Sched Unit := do
  let answers ← ask env.sessionAnswers
  modify fun state =>
    { state with sessions := state.sessions.disconnectSession clientId answers.now }

def sweepSessions : Sched Unit := do
  let answers ← ask env.sessionAnswers
  modify fun state =>
    { state with sessions := (state.sessions.sweepDisconnectedSessions answers.now).2 }

def scriptInfoMessage (clientId : ClientId) (requestId : UInt32) (id : String) : Sched Unit := do
  let state ← get
  if (state.sessions.sessionForClient clientId).isNone then
    reply clientId requestId missingSessionResponse
  else do
    let response ← ask fun question =>
      env.scriptInfo question (state.namedSessionIdForClient clientId) id
    reply clientId requestId response

end Sessions

section Retention

/-- `prune_job_history`: the oldest ended rows beyond the limit. -/
def prunedRows (history : Table JobId JobStatus) (keep : ℕ) : List JobId :=
  let ended := history.keys.filter fun jobId => (history.get jobId).any JobStatus.isTerminal
  (ended.sort (· ≤ ·)).take (ended.card - keep)

def pruneRetainedJobHistory : Sched Unit := do
  match ← ask env.storageError with
  | some _ => return ()
  | none =>
      modify fun state =>
        let removed := prunedRows state.history config.maxJobHistory
        { state with
          history := state.history.retain fun jobId _ => jobId ∉ removed
          jobs := state.jobs.retain fun jobId _ => jobId ∉ removed }

end Retention

section Shutdown

/-- Store that the end of the chain ends the job of a leaf. -/
def abortLeaf (chainId : ChainId) (index : ℕ) (jobId : Option JobId) : Sched Unit := do
  setLeafStatus chainId index .cancelled
  match jobId with
  | none => return ()
  | some jobId =>
      modify fun state => { state with jobs := state.jobs.modify jobId fun entry =>
        { entry with status := .cancelled .chainAborted } }

/-- Stop one leaf at shutdown: the job whose new status has to be stored. -/
def shutdownLeaf (chainId : ChainId) (index : ℕ) : Sched (List JobId) := do
  match (← get).chains.get chainId with
  | none => return []
  | some chain =>
      match chain.leafStatus index, chain.leafJobs.get index with
      | some .running, some jobId => do
          match ← killProcessJob env jobId with
          | .error _ => return []
          | .ok () => do
              abortLeaf chainId index (some jobId)
              return [jobId]
      | some .pending, jobId => do
          abortLeaf chainId index jobId
          return jobId.toList
      | _, _ => return []

def shutdownLeaves (chainId : ChainId) : List ℕ → Sched (List JobId)
  | [] => return []
  | index :: rest => do
      let stopped ← shutdownLeaf env chainId index
      return stopped ++ (← shutdownLeaves chainId rest)

/-- Stop the leaves of one chain and take it off the table. -/
def shutdownChain (chainId : ChainId) : Sched (List JobId) := do
  match (← get).chains.get chainId with
  | none => return []
  | some chain => do
      let indices := (List.range chain.node.leafCount).filter fun index =>
        (chain.leafStatus index).isSome
      let order ← ask fun question => env.walk question indices
      let stopped ← shutdownLeaves env chainId order
      modify fun state => { state with
        chains := state.chains.erase chainId
        jobToChain := state.jobToChain.retain fun jobId _ => !chain.ownsJob jobId }
      return stopped

def shutdownChains : List ChainId → Sched (List JobId)
  | [] => return []
  | chainId :: rest => do
      let stopped ← shutdownChain env chainId
      return stopped ++ (← shutdownChains rest)

/-- The jobs that are left are killed. -/
def killOpenJobs : Sched (List JobId) := do
  let state ← get
  let left := state.jobs.keys.filter fun jobId =>
    (state.jobs.get jobId).any fun entry => !entry.status.isTerminal
  let order ← ask fun question => env.walk question (left.sort (· ≤ ·))
  modify fun state => { state with jobs := state.jobs.mapValues fun _ entry =>
    if entry.status.isTerminal then entry else { entry with status := .killed } }
  return order

def persistStopped (jobId : JobId) : Sched Unit := do
  match (← get).jobs.get jobId with
  | none => return ()
  | some entry => do
      -- A failed write is only reported.
      let _ ← persistJobEntry env jobId entry.status

def failPendingScriptsOnShutdown : Sched Unit := do
  let state ← get
  let pending := (state.pendingScripts.keys.sort (· ≤ ·)).filterMap state.pendingScripts.get
  modify fun state => { state with
    pendingScripts := .empty
    pendingScriptJobs := .empty
    pendingScriptChains := .empty
    completedChains := .empty }
  pending.forM fun script => do
    record (.scriptStopped script.scriptId)
    finishPendingScriptFailed env script exitCodeUnavailable

def shutdown : Sched Unit := do
  let state ← get
  let chainIds ← ask fun question => env.walk question (state.chains.keys.sort (· ≤ ·))
  let aborted ← shutdownChains env chainIds
  let killed ← killOpenJobs env
  (aborted ++ killed).forM (persistStopped env)
  failPendingScriptsOnShutdown env

end Shutdown

section Loop

inductive SchedulerMsg where
  /-- Whether the daemon is still starting is asked of its lifecycle. -/
  | activate (isStarting : Bool)
  | beginDrain
  | connect (clientId : ClientId) (sessionId : SessionId) (refresh : Bool)
  | session (clientId : ClientId) (command : SessionCommand)
  | disconnect (clientId : ClientId)
  | scriptInfo (clientId : ClientId) (requestId : UInt32) (id : String)
  | eval (clientId : ClientId) (requestId : UInt32) (command : ResolvedCommand)
  | jobFinished (jobId : JobId) (exitCode : ℤ)
  | shutdown

/-- What the loop waits for. -/
inductive Wake where
  | message (message : SchedulerMsg)
  | startupActivation
  | timer

structure SchedulerLoop where
  state : SchedulerState
  executionPaused : Bool
  startupActivationArmed : Bool
  draining : Bool
  stopped : Bool
  /-- The states in which the lifecycle of the daemon was told that all work is done. -/
  marks : List SchedulerState

/-- Nothing is left to do before a restart. -/
def schedulerIsIdleForRestart (state : SchedulerState) : Bool :=
  (∀ jobId ∈ state.jobs.keys, (state.jobs.get jobId).all fun entry => entry.status.isTerminal) &&
    state.chains.keys = ∅ && state.pendingScripts.keys = ∅ && state.pendingResource.keys = ∅

namespace SchedulerLoop

/-- Run a program on the state of the loop. -/
def after (loop : SchedulerLoop) (program : Sched Unit) : SchedulerLoop :=
  { loop with state := (program loop.state).2 }

def markDrained (loop : SchedulerLoop) : SchedulerLoop :=
  { loop with marks := loop.marks ++ [loop.state] }

/-- What follows a message: a loop that drains looks whether it is done, and old rows are pruned. -/
def settle (loop : SchedulerLoop) : SchedulerLoop :=
  let settled := if loop.draining && schedulerIsIdleForRestart loop.state then loop.markDrained else loop
  settled.after (pruneRetainedJobHistory env config)

def evalMessage (loop : SchedulerLoop) (clientId : ClientId) (requestId : UInt32)
    (command : ResolvedCommand) : SchedulerLoop :=
  match refusal (loop.executionPaused || loop.draining) loop.state command clientId with
  | some response => loop.after (reply clientId requestId response)
  | none =>
      (loop.after do
        let response ← evalCommand env config command clientId requestId
        response.forM (reply clientId requestId)).settle env config

def handleMessage (loop : SchedulerLoop) : SchedulerMsg → SchedulerLoop
  | .activate isStarting =>
      let armed := !loop.draining && loop.executionPaused && isStarting
      let loop := { loop with startupActivationArmed := loop.startupActivationArmed || armed }
      loop.settle env config
  | .beginDrain => { loop with draining := true }.settle env config
  | .connect clientId sessionId refresh =>
      (loop.after (connectMessage env clientId sessionId refresh)).settle env config
  | .session clientId command =>
      (loop.after do
        let _ ← sessionMessage env clientId command).settle env config
  | .disconnect clientId => (loop.after (disconnectMessage env clientId)).settle env config
  | .scriptInfo clientId requestId id =>
      (loop.after (scriptInfoMessage env clientId requestId id)).settle env config
  | .eval clientId requestId command => loop.evalMessage env config clientId requestId command
  | .jobFinished jobId exitCode =>
      (loop.after (CueShell.jobFinished env config jobId exitCode)).settle env config
  | .shutdown => { loop.after (CueShell.shutdown env) with stopped := true }

def handleWake (loop : SchedulerLoop) : Wake → SchedulerLoop
  | .message message => loop.handleMessage env config message
  | .startupActivation =>
      if loop.executionPaused && loop.startupActivationArmed then
        { loop with executionPaused := false }
      else loop
  | .timer =>
      if loop.executionPaused || loop.draining then loop
      else loop.after (fireDueCrons env config)

/-- One turn of the loop. -/
def step (loop : SchedulerLoop) (wake : Wake) : SchedulerLoop :=
  if loop.stopped then loop else (loop.after (sweepSessions env)).handleWake env config wake

def run (loop : SchedulerLoop) (wakes : List Wake) : SchedulerLoop :=
  wakes.foldl (step env config) loop

end SchedulerLoop

/-- A state as it is read from the database: what was not finished is marked as killed. -/
structure Restored (state : SchedulerState) : Prop where
  ended : ∀ jobId entry, state.jobs.get jobId = some entry → entry.status.isTerminal
  known : ∀ jobId entry, state.jobs.get jobId = some entry → jobId < state.nextJob
  stored : ∀ jobId, state.history.get jobId = (state.jobs.get jobId).map JobEntry.status
  chains : state.chains = .empty
  jobToChain : state.jobToChain = .empty
  jobWaiters : state.jobWaiters = .empty
  pendingScripts : state.pendingScripts = .empty
  pendingScriptJobs : state.pendingScriptJobs = .empty
  pendingScriptChains : state.pendingScriptChains = .empty
  completedChains : state.completedChains = .empty
  pendingResourceJobs : state.pendingResourceJobs = []
  pendingResource : state.pendingResource = .empty
  reservations : state.reservations = .empty
  overrun : state.overrun = false
  log : state.log = []

/-- The loop before its first message. -/
def SchedulerLoop.boot (state : SchedulerState) (isStarting : Bool) : SchedulerLoop where
  state := (pruneRetainedJobHistory env config state).2
  executionPaused := isStarting
  startupActivationArmed := false
  draining := false
  stopped := false
  marks := []

end Loop

end CueShell
