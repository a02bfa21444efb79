import CueShell.Model.Scheduler.Queries

/-! # Commands, scripts and crons

The commands of a client, the items of a script and the due crons all end up in `spawnChain`. A script
item is handled like a command of its client; a script that has to go on while a command is handled is
given more rounds by the message that started it all.
-/

namespace CueShell

variable (env : Env) (config : Config)

section Options

structure CommandExecutionContext where
  scopeOverride : Option ScopeHash := none
  directOutputClient : Option ClientId := none
  sessionId : Option SessionId := none

def ModeParams.flag (params : ModeParams) (key : String) : Option Bool :=
  match params.get key with
  | some (.bool value) => some value
  | _ => none

def ModeParams.cwd (params : ModeParams) : Option String :=
  match params.get "cwd" with
  | some (.str path) => some path
  | _ => none

/-- Parameters `need.X` with a valid quantity; others are skipped. -/
def ModeParams.needs (params : ModeParams) : Need :=
  params.params.filterMap fun (key, value) =>
    match Text.stripPrefix "need.".toList key.toList, value with
    | some name, .str text =>
        if name = [] then none else (env.parseQuantity text).map (String.ofList name, ·)
    | _, _ => none

def sandboxFromParams (params : ModeParams) : Except String (Option SandboxSettings) :=
  match params.get "sandbox", params.get "sandbox.upper" with
  | none, none => .ok none
  | none, some _ => .error "sandbox.upper requires sandbox=overlay"
  | some (.bool _), _ => .error "sandbox expects a string value"
  | some (.str mode), upper =>
      if mode = "overlay" then
        match upper with
        | none => .ok (some ⟨none⟩)
        | some (.str path) =>
            .ok (some ⟨some (if path = "tmpfs" then .tmpfs else .directory path)⟩)
        | some (.bool _) => .error "sandbox.upper expects a string value"
      else .error ("unsupported sandbox `" ++ mode ++ "`; supported value: overlay")

def launchOptionsFromParams (params : ModeParams) : Except String LaunchOptions := do
  let sandbox ← sandboxFromParams params
  return ⟨params.flag "pty", params.needs env, sandbox⟩

def ChainExecutionOptions.fromParams (params : ModeParams) (state : SchedulerState)
    (clientId : ClientId) (directOutputClient : Option ClientId) :
    Except String ChainExecutionOptions := do
  let launch ← launchOptionsFromParams env params
  let wrapper := (params.flag "wrapper").getD (state.wrapperEnabled clientId config)
  return ⟨⟨none, launch, wrapper, state.ptyDefault clientId, directOutputClient⟩,
    (params.flag "scope").getD false⟩

def ChainExecutionOptions.fromCronEntry (entry : CronEntry) : ChainExecutionOptions :=
  ⟨⟨entry.cwdOverride, {}, entry.wrapperEnabled, true, none⟩, entry.scopeEnabled⟩

def ChainExecutionOptions.retryDefault : ChainExecutionOptions :=
  ⟨⟨none, {}, config.wrapperEnabled, true, none⟩, false⟩

def deriveModeParamsScope (baseScope : ScopeHash) (params : ModeParams) :
    Sched (Except String ScopeHash) :=
  match params.cwd with
  | none => return .ok baseScope
  | some cwd => ask fun question => env.deriveScope question baseScope { cwd := some cwd }

end Options

section Crons

/-- What is written of a cron. A scope that the database does not keep leaves a paused row without it;
the time of creation is that of the first write. -/
def storedCronFromEntry (entry : CronEntry) (scopePersisted : Bool) (createdAtMs : ℤ) : StoredCron where
  sessionId := entry.sessionId
  schedule := entry.schedule.display
  command := entry.chain.display
  status := if scopePersisted then entry.status else .paused
  scopeHash := if scopePersisted then some entry.scopeHash else none
  cwdOverride := entry.cwdOverride
  scopeEnabled := entry.scopeEnabled
  wrapperEnabled := entry.wrapperEnabled
  createdAtMs := createdAtMs

def nanosPerMilli : ℤ := 1000000

def persistCronRecord (cronId : CronId) (entry : CronEntry) : Sched (Option String) := do
  match ← ask env.storageError with
  | some error => return some ("persist cron " ++ cronText cronId ++ ": " ++ error)
  | none => do
      let scopePersisted ← ask fun question => env.scopePersisted question entry.scopeHash
      let wall ← ask env.wall
      modify fun state =>
        let createdAtMs := ((state.cronRows.get cronId).map StoredCron.createdAtMs).getD
          (wall / nanosPerMilli)
        { state with cronRows :=
            state.cronRows.insert cronId (storedCronFromEntry entry scopePersisted createdAtMs) }
      return none

def removeCronEntry (cronId : CronId) : Sched Response := do
  match ← ask env.storageError with
  | some error => return errorResponse "INTERNAL" ("remove cron " ++ cronText cronId ++ ": " ++ error)
  | none => do
      modify fun state => { state with
        crons := state.crons.erase cronId
        cronRows := state.cronRows.erase cronId }
      return .ok .ack

def setCronStatus (cronId : CronId) (status : CronStatus) : Sched Unit := do
  match (← get).crons.get cronId with
  | none => return ()
  | some entry => do
      let entry := { entry with status := status }
      modify fun state => { state with crons := state.crons.insert cronId entry }
      -- The write to the database may fail; that is only reported.
      let _ ← persistCronRecord env cronId entry

def markCronFailed (cronId : CronId) : Sched Unit := setCronStatus env cronId .failed

/-- The delay until a point in time; a point in the past is due at once. -/
def instantFromLocal (target : ℤ) : Sched ℕ := do
  let wall ← ask env.wall
  let instant ← ask env.instant
  return instant + (target - wall).toNat

/-- When a schedule is due next, after the time that has passed since it was set. -/
def nextTriggerInstant (schedule : CronSchedule) (elapsed : Duration) : Sched (Option ℕ) :=
  match schedule with
  | .interval period => do return some ((← ask env.instant) + period)
  | .delay after =>
      if after - elapsed = 0 ∧ elapsed ≠ 0 then return none
      else do return some ((← ask env.instant) + (after - elapsed))
  | .timeOfDay _ _ | .preset _ | .crontab _ => do
      let wall ← ask env.wall
      match schedule.nextOccurrence env.zone wall with
      | none => return none
      | some target => do return some (← instantFromLocal env target)

/-- What happens to a cron once its chain is under way. A schedule without a next occurrence leaves
the cron as it is. -/
def rescheduleCron (cronId : CronId) (schedule : CronSchedule) : Sched Unit := do
  if schedule.isOneshot then setCronStatus env cronId .completed
  else do
    match ← nextTriggerInstant env schedule 0 with
    | none => return ()
    | some nextTrigger =>
        modify fun state => { state with crons := state.crons.modify cronId fun entry =>
          { entry with nextTrigger := nextTrigger } }

/-- Fire one due cron, if it is still there. -/
def fireCron (cronId : CronId) : Sched Unit := do
  match (← get).crons.get cronId with
  | none => return ()
  | some entry =>
      match checkChainGuardrails entry.chain config with
      | .error _ => markCronFailed env cronId
      | .ok warnings => do
          let response ← spawnChain env
            { chain := entry.chain
              scopeHash := entry.scopeHash
              options := .fromCronEntry entry
              warnings := warnings
              retainCompletedChain := false
              sessionId := entry.sessionId }
          match response with
          | .err _ _ => markCronFailed env cronId
          | .ok _ => rescheduleCron env cronId entry.schedule

def fireDueCrons : Sched Unit := do
  let now ← ask env.instant
  let state ← get
  let due := state.crons.keys.filter fun cronId => (state.crons.get cronId).any fun entry =>
    entry.status.isRunnable && entry.nextTrigger ≤ now
  let order ← ask fun question => env.walk question (due.sort (· ≤ ·))
  order.forM (fireCron env config)

end Crons

section Commands

def resolveCommandScope (state : SchedulerState) (clientId : ClientId)
    (scopeOverride : Option ScopeHash) : Option ScopeHash :=
  scopeOverride.or (state.clientScope clientId)

/-- Run a chain whose scope is known. -/
def runChecked (chain : ChainNode) (params : ModeParams) (clientId : ClientId)
    (context : CommandExecutionContext) (requester : Option SessionId) (scopeHash : ScopeHash) :
    Sched Response := do
  match checkChainGuardrails chain config with
  | .error reason => return errorResponse "BLOCKED" reason
  | .ok warnings =>
      match ChainExecutionOptions.fromParams env config params (← get) clientId
          context.directOutputClient with
      | .error reason => return errorResponse "INVALID_SYNTAX" reason
      | .ok options =>
          spawnChain env
            { chain := chain
              scopeHash := scopeHash
              options := options
              warnings := warnings
              retainCompletedChain := context.scopeOverride.isSome
              sessionId := requester }

def handleRun (chain : ChainNode) (params : ModeParams) (clientId : ClientId)
    (context : CommandExecutionContext) (requester : Option SessionId) : Sched Response := do
  match resolveCommandScope (← get) clientId context.scopeOverride with
  | none => return missingSessionResponse
  | some baseScope => do
      match ← deriveModeParamsScope env baseScope params with
      | .error reason => return errorResponse "INVALID_SYNTAX" reason
      | .ok scopeHash => runChecked env config chain params clientId context requester scopeHash

/-- Register a cron whose scope is known and whose chain has passed the guardrails. -/
def addCron (schedule : CronSchedule) (chain : ChainNode) (params : ModeParams)
    (clientId : ClientId) (requester : Option SessionId) (scopeHash : ScopeHash) : Sched Response := do
  let cronId ← allocCron
  match ← nextTriggerInstant env schedule 0 with
  | none =>
      let message := "cannot compute next trigger for schedule: " ++ schedule.display
      return errorResponse "INVALID_SYNTAX" message
  | some nextTrigger =>
      match ChainExecutionOptions.fromParams env config params (← get) clientId none with
      | .error reason => return errorResponse "INVALID_SYNTAX" reason
      | .ok options => do
          let entry : CronEntry :=
            { schedule := schedule
              chain := chain
              scopeHash := scopeHash
              status := .scheduled
              nextTrigger := nextTrigger
              cwdOverride := none
              scopeEnabled := options.scopeEnabled
              wrapperEnabled := options.process.wrapperEnabled
              sessionId := requester }
          match ← persistCronRecord env cronId entry with
          | some error => return errorResponse "INTERNAL" error
          | none => do
              modify fun state => { state with crons := state.crons.insert cronId entry }
              return .ok (.cronAdded cronId)

def handleCron (schedule : CronSchedule) (chain : ChainNode) (params : ModeParams)
    (clientId : ClientId) (context : CommandExecutionContext) (requester : Option SessionId) :
    Sched Response := do
  match resolveCommandScope (← get) clientId context.scopeOverride with
  | none => return missingSessionResponse
  | some baseScope => do
      match ← deriveModeParamsScope env baseScope params with
      | .error reason => return errorResponse "INVALID_SYNTAX" reason
      | .ok scopeHash =>
          match checkChainGuardrails chain config with
          | .error reason => return errorResponse "BLOCKED" reason
          | .ok _ => addCron env config schedule chain params clientId requester scopeHash

/-- The common part of pausing and resuming a cron. -/
def updateCron (id unsupported : String) (change : CronEntry → Sched CronEntry) : Sched Response := do
  match parseCronId id with
  | none => return errorResponse "NOT_SUPPORTED" unsupported
  | some cronId =>
      match (← get).crons.get cronId with
      | none => return errorResponse "NOT_FOUND" ("cron " ++ id ++ " not found")
      | some entry =>
          if entry.status.isTerminal then
            return errorResponse "INVALID_STATE" ("cron " ++ cronText cronId ++ " is already terminal")
          else do
            let updated ← change entry
            match ← persistCronRecord env cronId updated with
            | some error => return errorResponse "INTERNAL" error
            | none => do
                modify fun state => { state with crons := state.crons.insert cronId updated }
                return .ok .ack

def handlePause (id : String) : Sched Response :=
  updateCron env id "pause only supports cron IDs (C<n>)" fun entry =>
    return { entry with status := .paused }

def handleResume (id : String) : Sched Response :=
  updateCron env id "resume only supports cron IDs (C<n>)" fun entry => do
    let nextTrigger ← nextTriggerInstant env entry.schedule 0
    return { entry with status := .scheduled, nextTrigger := nextTrigger.getD entry.nextTrigger }

def removeKnownCron (id : String) (cronId : CronId) : Sched Response := do
  match (← get).crons.get cronId with
  | none => return errorResponse "NOT_FOUND" ("cron " ++ id ++ " not found")
  | some _ => removeCronEntry env cronId

def handleRemoveCron (id : String) : Sched Response :=
  match parseCronId id with
  | none => return errorResponse "NOT_SUPPORTED" "RemoveCron only supports cron IDs (C<n>)"
  | some cronId => removeKnownCron env id cronId

/-- Why the text of a job does not read as a chain. -/
def chainTextError (text : String) : String :=
  match parseCommand (":run " ++ text) .job with
  | some (.error error) => error.message
  | _ => "unexpected restore command"

/-- Run the stored text of an ended job again. -/
def handleRetry (id : String) : Sched Response := do
  match parseJobId id with
  | none => return errorResponse "NOT_FOUND" ("invalid job id: " ++ id)
  | some jobId =>
      match (← get).jobs.get jobId with
      | none => return errorResponse "NOT_FOUND" ("job " ++ id ++ " not found")
      | some entry =>
          if !entry.status.isTerminal then
            return errorResponse "INVALID_STATE" ("job " ++ jobText jobId ++ " is not terminal")
          else
            match entry.startScope, parseChainText entry.pipelineText with
            | none, _ =>
                return errorResponse "INVALID_SCOPE"
                  ("job " ++ jobText jobId ++ " has no recorded start scope")
            | some _, none =>
                return errorResponse "INTERNAL"
                  ("cannot reconstruct job pipeline: " ++ chainTextError entry.pipelineText)
            | some startScope, some chain =>
                spawnChain env
                  { chain := chain
                    scopeHash := startScope
                    options := .retryDefault config
                    warnings := []
                    retainCompletedChain := false
                    sessionId := entry.sessionId }

variable (resume : PendingScriptRun → Sched Unit)

/-- A user ends a job; the answer is an acknowledgement unless something could not be stored. -/
def endByUser (jobId : JobId) (status : JobStatus) : Sched Response := do
  match ← applyUserTerminalJobUpdate env resume jobId ⟨status, exitCodeUnavailable, none, true⟩ with
  | some error => return errorResponse "INTERNAL" error
  | none => return .ok .ack

def killJob (id : String) (jobId : JobId) : Sched Response := do
  match (← get).jobs.get jobId with
  | none => return errorResponse "NOT_FOUND" ("job " ++ id ++ " not found")
  | some entry =>
      if entry.status = .running then do
        match ← killProcessJob env jobId with
        | .error error => return errorResponse "INTERNAL" error
        | .ok () => endByUser env resume jobId .killed
      else return errorResponse "INVALID_STATE" ("job " ++ jobText jobId ++ " is not running")

def handleKill (id : String) : Sched Response :=
  match parseJobId id, parseCronId id with
  | some jobId, _ => killJob env resume id jobId
  | none, some cronId => removeKnownCron env id cronId
  | none, none => return errorResponse "NOT_FOUND" (id ++ " not found")

def handleKillJob (id : String) : Sched Response :=
  match parseJobId id with
  | none => return errorResponse "NOT_SUPPORTED" "KillJob only supports job IDs (J<n>)"
  | some jobId => killJob env resume id jobId

def handleCancel (id : String) : Sched Response := do
  match parseJobId id with
  | none => return errorResponse "NOT_FOUND" (id ++ " not found")
  | some jobId =>
      match (← get).jobs.get jobId with
      | none => return errorResponse "NOT_FOUND" ("job " ++ id ++ " not found")
      | some entry =>
          if entry.status.isTerminal then
            return errorResponse "INVALID_STATE" ("job " ++ jobText jobId ++ " is already terminal")
          else do
            match ← if entry.status = .running then killProcessJob env jobId else pure (.ok ()) with
            | .error error => return errorResponse "INTERNAL" error
            | .ok () => endByUser env resume jobId (.cancelled .user)

/-- Cancel a job, a chain or a script. -/
def cancelTarget (id : String) : Option (Sched (Except String Unit)) :=
  match parseJobId id, parseChainId id, parseScriptId id with
  | some jobId, _, _ => some (cancelJobExecution env resume jobId)
  | none, some chainId, _ => some (cancelChainExecution env resume chainId)
  | none, none, some scriptId => some (cancelScriptExecution env resume scriptId)
  | none, none, none => none

def handleCancelExecution (id : String) : Sched Response :=
  match cancelTarget env resume id with
  | none =>
      return errorResponse "INVALID_REQUEST"
        ("unsupported execution id " ++ id ++ "; expected J<n>, CH<n>, or R<n>")
  | some cancel => do
      match ← cancel with
      | .ok () => return .ok .ack
      | .error message =>
          if "not found".toList.isSuffixOf message.toList then
            return errorResponse "NOT_FOUND" message
          else return errorResponse "INTERNAL" message

def dispatchCommand (command : SingleCommand) (clientId : ClientId)
    (context : CommandExecutionContext) (requester : Option SessionId) : Sched Response :=
  match command with
  | .run chain params => handleRun env config chain params clientId context requester
  | .cron schedule chain params =>
      handleCron env config schedule chain params clientId context requester
  | .kill id => handleKill env resume id
  | .killJob id => handleKillJob env resume id
  | .cancelExecution id => handleCancelExecution env resume id
  | .removeCron id => handleRemoveCron env id
  | .cancel id => handleCancel env resume id
  | .pause id => handlePause env id
  | .resume id => handleResume env id
  | .retry id => handleRetry env config id
  | .wait _ => return errorResponse "INTERNAL" "`:wait` should be handled by the scheduler loop"
  | query => handleQuery env config query clientId requester

def handleCommandWithScope (command : SingleCommand) (clientId : ClientId)
    (context : CommandExecutionContext) : Sched Response := do
  let state ← get
  let requester := context.sessionId.or (state.namedSessionIdForClient clientId)
  record (.command command requester state.jobs state.sessions)
  match sessionOwnedTargetForCommand command with
  | none => dispatchCommand env config resume command clientId context requester
  | some target => do
      if ← authorizeSessionOwnedTarget env requester target then
        dispatchCommand env config resume command clientId context requester
      else return errorResponse "NOT_FOUND" (target.display ++ " not found")

end Commands

section Scripts

/-- What a script does after an item: stop with a response, or go on. -/
inductive ScriptStep where
  | stop (response : Option Response)
  | go (pending : PendingScriptRun)

def scriptCreatedResponse (pending : PendingScriptRun) (submitError : Option ScriptSubmitError) :
    Response :=
  .ok (.scriptCreated pending.scriptId pending.source pending.createdItems submitError)

/-- End a script. Only a script that is just being submitted reports that its end could not be
stored. -/
def finishScript (pending : PendingScriptRun) (exitCode : ℤ) (failedIndex : Option ℕ)
    (submitError : Option ScriptSubmitError) (respondCreated : Bool) : Sched ScriptStep := do
  match ← ask env.storageError, respondCreated with
  | some error, true => return .stop (some (errorResponse "INTERNAL" error))
  | _, _ => do
      record (.scriptFinished pending.scriptId exitCode failedIndex)
      return .stop (if respondCreated then some (scriptCreatedResponse pending submitError) else none)

/-- Let a script wait for the item it has just submitted. -/
def suspendScript (pending : PendingScriptRun) (index : ℕ) (respondCreated : Bool) :
    Sched ScriptStep := do
  let pending := { pending with waitingIndex := some index }
  let persistError ← ask env.storageError
  modify fun state =>
    { state with pendingScripts := state.pendingScripts.insert pending.scriptId pending }
  match persistError, respondCreated with
  | some error, true => return .stop (some (errorResponse "INTERNAL" error))
  | _, true => return .stop (some (scriptCreatedResponse pending none))
  | _, false => return .stop none

/-- Wait for a chain, unless it is complete already. -/
def awaitChain (pending : PendingScriptRun) (index : ℕ) (chainId : ChainId) (respondCreated : Bool) :
    Sched ScriptStep := do
  let state ← get
  match state.completedChains.get chainId with
  | some completion => do
      modify fun state => { state with completedChains := state.completedChains.erase chainId }
      let response :=
        if respondCreated then some (scriptCreatedResponse { pending with waitingIndex := some index }
          none) else none
      let pending := { pending with
        waitingIndex := some index
        itemScope := completion.endScope.getD pending.itemScope
        lastExitCode := completion.exitCode }
      record (.itemEnded pending.scriptId (some index) (.chain chainId) completion.exitCode)
      if completion.exitCode ≠ 0 then do
        finishPendingScriptFailed env pending completion.exitCode
        return .stop response
      else return .go pending
  | none => do
      modify fun state => { state with
        pendingScriptChains := state.pendingScriptChains.insert chainId pending.scriptId }
      suspendScript env pending index respondCreated

def immediateScriptItemExitCode (state : SchedulerState) : OkPayload → Option ℤ
  | .jobCreated jobId _ _ => do
      let entry ← state.jobs.get jobId
      if entry.status.isTerminal then some (entry.exitCode.getD exitCodeUnavailable) else none
  | .cronAdded _ | .evalText _ | .textOutput _ _ | .scopeCreated _ _ | .ack => some 0
  | _ => none

def scriptItemEndScope (state : SchedulerState) : OkPayload → Option ScopeHash
  | .jobCreated jobId _ _ => do
      let entry ← state.jobs.get jobId
      if entry.status.isTerminal then entry.endScope.or entry.startScope else none
  | _ => none

def scriptItemResult : OkPayload → ScriptItemResult
  | .jobCreated jobId _ _ => .job jobId
  | .chainCreated chainId _ _ _ => .chain chainId
  | .cronAdded cronId => .cron cronId
  | _ => .message

/-- An item has been accepted. -/
def afterItem (pending : PendingScriptRun) (index : ℕ) (source : String) (payload : OkPayload)
    (respondCreated : Bool) : Sched ScriptStep := do
  let state ← get
  let pending := { pending with
    itemScope := (scriptItemEndScope state payload).getD pending.itemScope
    createdItems := pending.createdItems ++ [⟨index, source, scriptItemResult payload⟩] }
  match immediateScriptItemExitCode state payload with
  | some exitCode => do
      record (.itemEnded pending.scriptId (some index) (scriptItemResult payload) exitCode)
      let pending := { pending with lastExitCode := exitCode }
      if exitCode ≠ 0 then finishScript env pending exitCode (some index) none respondCreated
      else return .go pending
  | none =>
      match scriptItemResult payload with
      | .job jobId => do
          modify fun state => { state with
            pendingScriptJobs := state.pendingScriptJobs.insert jobId pending.scriptId }
          suspendScript env pending index respondCreated
      | .chain chainId => awaitChain env pending index chainId respondCreated
      -- Lists and the like are answered at once and cannot fail.
      | other => do
          record (.itemEnded pending.scriptId (some index) other 0)
          return .go pending

/-- The items of a script in order, until one has to be waited for, fails or is rejected. -/
def submitPendingScriptNext : ℕ → PendingScriptRun → Bool → Sched (Option Response)
  | 0, _, _ => do
      modify fun state => { state with overrun := true }
      return none
  | rounds + 1, pending, respondCreated =>
      match pending.items with
      | [] => do
          match ← finishScript env pending pending.lastExitCode none none respondCreated with
          | .stop response => return response
          | .go _ => return none
      | item :: rest => do
          let index := pending.nextIndex
          let next := { pending with items := rest, nextIndex := index + 1 }
          let resume := fun other => do
            let _ ← submitPendingScriptNext rounds other false
          record (.itemSubmitted pending.scriptId index)
          let response ← handleCommandWithScope env config resume item.command pending.clientId
            ⟨some pending.itemScope, some pending.clientId, pending.sessionId⟩
          let step ← match response with
            | .err code message => do
                record (.itemRejected pending.scriptId index)
                finishScript env next exitCodeUnavailable (some index)
                  (some ⟨index, item.source, code, message⟩) respondCreated
            | .ok payload => afterItem env next index item.source payload respondCreated
          match step with
          | .stop response => return response
          | .go pending => submitPendingScriptNext rounds pending respondCreated

end Scripts

end CueShell
