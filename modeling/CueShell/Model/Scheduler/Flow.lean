import CueShell.Model.Scheduler.Board

/-! # What commands, scripts and crons do to a board

A flow is a step that some command, script or cron asked for, or a change of the tables that no job
depends on: the waiting clients, the crons, the settings of a session and the scripts. A script that
is under way stands on top of the scripts whose items made it go on.
-/

namespace CueShell

/-- Why the scheduler is at work: the request that is answered, and whether clients and crons may
start new work. -/
structure Occasion where
  asker : Option (ClientId × UInt32)
  isOpen : Bool

namespace Board

variable (board : Board)

/-- The sessions the scheduler acts for: those of the clients, and those of the scripts under way. -/
def ActsFor (sessionId : Option SessionId) : Prop :=
  (∃ clientId, sessionId = board.toSchedulerState.namedSessionIdForClient clientId) ∨
    ∃ current ∈ board.running, sessionId = current.script.sessionId

/-- A script under way has just submitted an item, and the command of the item is handled. -/
def Submits : Prop :=
  ∃ script outer earlier index command requester jobs sessions,
    board.running = ⟨script, .busy⟩ :: outer ∧ board.log = earlier ++
      [.itemSubmitted script.scriptId index, .command command requester jobs sessions]

/-- The reasons for which a chain is spawned. A retry names a job that the one who asks may see. -/
inductive Permits (config : Config) (occasion : Occasion) (asked : SpawnChainRequest) : Prop
  | run (warnings : List String) (owner : board.ActsFor asked.sessionId)
      (checked : checkChainGuardrails asked.chain config = .ok warnings)
      (source : occasion.isOpen ∨ board.Submits)
  | cron (isOpen : occasion.isOpen) (cronId : CronId) (entry : CronEntry) (warnings : List String)
      (found : board.crons.get cronId = some entry) (chain : asked.chain = entry.chain)
      (sessionId : asked.sessionId = entry.sessionId)
      (checked : checkChainGuardrails asked.chain config = .ok warnings)
  | retry (id : String) (requester : Option SessionId) (jobId : JobId) (entry : JobEntry)
      (noted : .command (.retry id) requester board.jobs board.sessions ∈ board.log)
      (named : parseJobId id = some jobId) (found : board.jobs.get jobId = some entry)
      (ended : entry.status.isTerminal) (start : entry.startScope = some asked.scopeHash)
      (text : parseChainText entry.pipelineText = some asked.chain)
      (sessionId : asked.sessionId = entry.sessionId) (source : occasion.isOpen ∨ board.Submits)
      (owner : board.ActsFor requester)
      (seen : ∀ session, requester = some session → entry.sessionId = some session)

/-- The exit code of what an item of a script has made. -/
def EndedWith (exitCode : ℤ) : ScriptItemResult → Prop
  | .job jobId => ∃ reported, exitCode = scriptExitCodeForJob board.toSchedulerState jobId reported
  | .chain chainId => ∃ endScope, board.completedChains.get chainId = some ⟨exitCode, endScope⟩
  | .cron _ | .message => exitCode = 0

/-- A script waits for the given job or chain. -/
def Awaits (scriptId : ScriptId) : ScriptItemResult → Prop
  | .job jobId => board.pendingScriptJobs.get jobId = some scriptId
  | .chain chainId => board.pendingScriptChains.get chainId = some scriptId
  | .cron _ | .message => False

/-- Nobody waits for the given job or chain any more. -/
def unlink : ScriptItemResult → Board
  | .job jobId => { board with pendingScriptJobs := board.pendingScriptJobs.erase jobId }
  | .chain chainId => { board with pendingScriptChains := board.pendingScriptChains.erase chainId }
  | .cron _ | .message => board

/-- A script waits from now on. -/
def link (scriptId : ScriptId) : ScriptItemResult → Board
  | .job jobId => { board with pendingScriptJobs := board.pendingScriptJobs.insert jobId scriptId }
  | .chain chainId =>
      { board with pendingScriptChains := board.pendingScriptChains.insert chainId scriptId }
  | .cron _ | .message => board

/-- What a script can wait for: a job outside of all chains that has not ended, or an active chain. -/
def Open : ScriptItemResult → Prop
  | .job jobId => board.jobToChain.get jobId = none ∧
      ∃ entry, board.jobs.get jobId = some entry ∧ ¬ entry.status.isTerminal
  | .chain chainId => (board.chains.get chainId).isSome
  | .cron _ | .message => False

/-- Note events in the log. -/
def note (events : List SchedulerEvent) : Board := { board with log := board.log ++ events }

/-- The scripts under way change. -/
def withRunning (running : List RunningScript) : Board := { board with running := running }

end Board

/-- The run of a script with a new item scope, new items or another exit code. -/
structure PendingScriptRun.Same (before after : PendingScriptRun) : Prop where
  clientId : after.clientId = before.clientId
  scriptId : after.scriptId = before.scriptId
  items : after.items = before.items
  nextIndex : after.nextIndex = before.nextIndex
  sessionId : after.sessionId = before.sessionId
  lastExitCode : after.lastExitCode = 0 ∨ after.lastExitCode = before.lastExitCode

/-- A script that has submitted no item. -/
structure PendingScriptRun.Fresh (script : PendingScriptRun) (scriptId : ScriptId) : Prop where
  scriptId : script.scriptId = scriptId
  nextIndex : script.nextIndex = 0
  lastExitCode : script.lastExitCode = 0

/-- Changes of a board while a message is handled. Only the client whose request is handled is
answered; those who wait for a job are answered by its end. -/
inductive Board.Flow (config : Config) (occasion : Occasion) : Board → Board → Prop
  | step {before after : Board} {target : Targets} {request : Option SpawnChainRequest}
      (permitted : ∀ asked, request = some asked → before.Permits config occasion asked)
      (change : Board.Step target request before after) : Flow config occasion before after
  | command {board : Board} (command : SingleCommand) (requester : Option SessionId) :
      Flow config occasion board (board.note [.command command requester board.jobs board.sessions])
  | unsaved {board : Board} (chainId : ChainId) :
      Flow config occasion board (board.note [.cancelUnsaved chainId])
  | wait {board : Board} (clientId : ClientId) (requestId : UInt32) (jobId : JobId) (entry : JobEntry)
      (asks : occasion.asker = some (clientId, requestId)) (found : board.jobs.get jobId = some entry)
      (unfinished : ¬ entry.status.isTerminal) :
      Flow config occasion board { board.note [.waits clientId requestId jobId] with
        jobWaiters := board.jobWaiters.insert jobId
          ((board.jobWaiters.get jobId).getD [] ++ [⟨clientId, requestId⟩]) }
  | answer {board : Board} (clientId : ClientId) (requestId : UInt32) (jobId : JobId)
      (entry : JobEntry) (asks : occasion.asker = some (clientId, requestId))
      (found : board.jobs.get jobId = some entry) (ended : entry.status.isTerminal) :
      Flow config occasion board (board.note [.waits clientId requestId jobId,
        .replied clientId requestId (.ok (.jobInfo jobId entry))])
  | reply {board : Board} (clientId : ClientId) (requestId : UInt32) (response : Response)
      (asks : occasion.asker = some (clientId, requestId))
      (silent : ∀ jobId entry, response ≠ .ok (.jobInfo jobId entry)) :
      Flow config occasion board (board.note [.replied clientId requestId response])
  | crons {board : Board} (nextCron : CronId) (crons : Table CronId CronEntry)
      (cronRows : Table CronId StoredCron)
      (owned : ∀ cronId entry, crons.get cronId = some entry →
        (∃ known, board.crons.get cronId = some known ∧ known.sessionId = entry.sessionId) ∨
          board.ActsFor entry.sessionId) :
      Flow config occasion board
        { board with nextCron := nextCron, crons := crons, cronRows := cronRows }
  | scope {board : Board} (answers : SessionAnswers) (clientId : ClientId) (hash : ScopeHash) :
      Flow config occasion board { board with
        sessions := (board.sessions.updateClientSessionScope answers clientId hash).2 }
  | defaults {board : Board} (answers : SessionAnswers) (key : String) (session : SessionState)
      (defaults : LaunchDefaults) (found : board.sessions.sessions.get key = some session) :
      Flow config occasion board { board with
        sessions := (board.sessions.updateDefaults answers key session defaults).2 }
  | prune {board : Board} (removed : JobId → Bool)
      (old : ∀ jobId, removed jobId → ∃ status, board.history.get jobId = some status ∧
        status.isTerminal) :
      Flow config occasion board { board with
        history := board.history.retain fun jobId _ => !removed jobId
        jobs := board.jobs.retain fun jobId _ => !removed jobId }
  | forget {board : Board} (chainId : ChainId)
      (idle : board.pendingScriptChains.get chainId = none) :
      Flow config occasion board { board with completedChains := board.completedChains.erase chainId }
  | skip {board : Board} : Flow config occasion board { board with nextScript := board.nextScript + 1 }
  | start {board : Board} (isOpen : occasion.isOpen) (script : PendingScriptRun)
      (fresh : script.Fresh board.nextScript)
      (owner : script.sessionId = board.toSchedulerState.namedSessionIdForClient script.clientId) :
      Flow config occasion board { board.note [.scriptStarted script.scriptId script.items.length] with
        nextScript := board.nextScript + 1
        running := ⟨script, .idle⟩ :: board.running }
  | submit {board : Board} {script : PendingScriptRun} {outer : List RunningScript}
      {item : ResolvedScriptItem} {items : List ResolvedScriptItem}
      (current : board.running = ⟨script, .idle⟩ :: outer) (next : script.items = item :: items) :
      Flow config occasion board ((board.note [.itemSubmitted script.scriptId script.nextIndex]).withRunning
        (⟨{ script with items := items, nextIndex := script.nextIndex + 1 }, .busy⟩ :: outer))
  | pass {board : Board} {script later : PendingScriptRun} {outer : List RunningScript} {index : ℕ}
      {result : ScriptItemResult} (current : board.running = ⟨script, .busy⟩ :: outer)
      (position : script.nextIndex = index + 1) (ended : board.EndedWith 0 result)
      (same : script.Same later) :
      Flow config occasion board ((board.note [.itemEnded script.scriptId (some index) result 0]).withRunning
        (⟨later, .idle⟩ :: outer))
  | fail {board : Board} {script : PendingScriptRun} {outer : List RunningScript} {index : ℕ}
      {result : ScriptItemResult} {exitCode : ℤ} (current : board.running = ⟨script, .busy⟩ :: outer)
      (position : script.nextIndex = index + 1) (ended : board.EndedWith exitCode result)
      (failed : exitCode ≠ 0) (report : List SchedulerEvent)
      (reported : report = [] ∨ report = [.scriptFinished script.scriptId exitCode (some index)]) :
      Flow config occasion board ((board.note
        (.itemEnded script.scriptId (some index) result exitCode :: report)).withRunning outer)
  | reject {board : Board} {script : PendingScriptRun} {outer : List RunningScript} {index : ℕ}
      (current : board.running = ⟨script, .busy⟩ :: outer) (position : script.nextIndex = index + 1)
      (report : List SchedulerEvent) (reported : report = [] ∨
        report = [.scriptFinished script.scriptId exitCodeUnavailable (some index)]) :
      Flow config occasion board
        ((board.note (.itemRejected script.scriptId index :: report)).withRunning outer)
  | done {board : Board} {script : PendingScriptRun} {outer : List RunningScript}
      (current : board.running = ⟨script, .idle⟩ :: outer) (last : script.items = [])
      (report : List SchedulerEvent) (reported : report = [] ∨
        report = [.scriptFinished script.scriptId script.lastExitCode none]) :
      Flow config occasion board ((board.note report).withRunning outer)
  | suspend {board : Board} {script later : PendingScriptRun} {outer : List RunningScript} {index : ℕ}
      {result : ScriptItemResult} (current : board.running = ⟨script, .busy⟩ :: outer)
      (position : script.nextIndex = index + 1) (waits : board.Open result) (same : script.Same later)
      (waiting : later.waitingIndex = some index) :
      Flow config occasion board { board.link script.scriptId result with
        pendingScripts := board.pendingScripts.insert script.scriptId later
        running := outer }
  | unlink {board : Board} {scriptId : ScriptId} (result : ScriptItemResult)
      (link : board.Awaits scriptId result) (gone : board.pendingScripts.get scriptId = none) :
      Flow config occasion board (board.unlink result)
  | resume {board : Board} {scriptId : ScriptId} {script later : PendingScriptRun}
      {result : ScriptItemResult} (link : board.Awaits scriptId result)
      (found : board.pendingScripts.get scriptId = some script) (ended : board.EndedWith 0 result)
      (same : script.Same later) :
      Flow config occasion board
        { (board.unlink result).note [.itemEnded script.scriptId script.waitingIndex result 0] with
          pendingScripts := board.pendingScripts.erase scriptId
          running := ⟨later, .idle⟩ :: board.running }
  | abort {board : Board} {scriptId : ScriptId} {script : PendingScriptRun}
      {result : ScriptItemResult} {exitCode : ℤ} (link : board.Awaits scriptId result)
      (found : board.pendingScripts.get scriptId = some script)
      (ended : board.EndedWith exitCode result) (failed : exitCode ≠ 0) :
      Flow config occasion board
        { (board.unlink result).note [.itemEnded script.scriptId script.waitingIndex result exitCode,
            .scriptFinished script.scriptId exitCode script.waitingIndex] with
          pendingScripts := board.pendingScripts.erase scriptId }
  | stop {board : Board} {scriptId : ScriptId} {script : PendingScriptRun}
      (currentJob : Option JobId) (currentChain : Option ChainId)
      (found : board.pendingScripts.get scriptId = some script)
      (job : ∀ jobId, currentJob = some jobId → board.pendingScriptJobs.get jobId = some scriptId)
      (chain : ∀ chainId, currentChain = some chainId →
        board.pendingScriptChains.get chainId = some scriptId) :
      Flow config occasion board { board.note [.scriptStopped scriptId] with
        pendingScripts := board.pendingScripts.erase scriptId
        pendingScriptJobs := currentJob.elim board.pendingScriptJobs board.pendingScriptJobs.erase
        pendingScriptChains :=
          currentChain.elim board.pendingScriptChains board.pendingScriptChains.erase
        running := ⟨script, .stopped⟩ :: board.running }
  | report {board : Board} {script : PendingScriptRun} {outer : List RunningScript}
      (current : board.running = ⟨script, .stopped⟩ :: outer) :
      Flow config occasion board ((board.note
        [.scriptFinished script.scriptId exitCodeUnavailable script.waitingIndex]).withRunning outer)

abbrev Board.Flows (config : Config) (occasion : Occasion) : Board → Board → Prop :=
  Relation.ReflTransGen (Board.Flow config occasion)

end CueShell
