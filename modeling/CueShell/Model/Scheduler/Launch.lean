import CueShell.Model.Scheduler.Execution
import Mathlib.Data.Finset.Sort

/-! # Launching and ending work

`spawnChain` turns a chain into one job or into an active chain. The end of a job advances its chain,
gives waiting jobs another chance to get their resources, and lets the script that waited for it go
on; what a script does next is a parameter here, because its next item is a command again.
-/

namespace CueShell

variable (env : Env)

def errorResponse (code message : String) : Response := .err code message

section Spawn

structure SpawnChainRequest where
  chain : ChainNode
  scopeHash : ScopeHash
  options : ChainExecutionOptions
  warnings : List String
  retainCompletedChain : Bool
  sessionId : Option SessionId

/-- The entry of a job that is no part of a chain. -/
def SpawnChainRequest.entry (request : SpawnChainRequest) (leaf : FlatLeaf) (status : JobStatus)
    (startScope : ScopeHash) (pendingReason : Option String) : JobEntry where
  sessionId := request.sessionId
  pipelineText := leaf.pipelineText
  status := status
  exitCode := none
  startScope := some startScope
  endScope := none
  chainId := none
  chainIndex := none
  chainTotal := none
  pendingReason := pendingReason

def enterJob (request : SpawnChainRequest) (leaf : FlatLeaf) (jobId : JobId) (status : JobStatus)
    (startScope : ScopeHash) (pendingReason : Option String) : Sched Unit :=
  let entry := request.entry leaf status startScope pendingReason
  modify fun state => { state with jobs := state.jobs.insert jobId entry }

/-- The answer after a job that could not be run was stored as failed. -/
def failedResponse (terminal : TerminalStateOutcome) (code message : String) : Response :=
  match terminal.persistError with
  | some error => errorResponse "INTERNAL" (message ++ "; " ++ error)
  | none => errorResponse code message

/-- A single job of a scope-enabled request: its only effect is a new scope. -/
def spawnScopeJob (request : SpawnChainRequest) (leaf : FlatLeaf) (jobId : JobId) :
    Sched Response := do
  enterJob request leaf jobId .running request.scopeHash none
  match scopeTransformFromCommand leaf.command with
  | .error message => do
      let terminal ← failJob env jobId request.scopeHash
      match terminal.persistError with
      | some error => return errorResponse "INTERNAL" error
      | none => return errorResponse "INVALID_SYNTAX" message
  | .ok _ => do
      let ended ← ask fun question =>
        env.applyScopeTransform question request.scopeHash leaf.command
      let terminal ← match ended with
        | .ok endScope => setJobTerminalState env jobId ⟨.done, 0, some endScope, true⟩
        | .error _ => failJob env jobId request.scopeHash
      match terminal.persistError with
      | some error => return errorResponse "INTERNAL" error
      | none => return .ok (.jobCreated jobId request.scopeHash request.warnings)

/-- A single job that runs a process. -/
def spawnProcess (request : SpawnChainRequest) (leaf : FlatLeaf) (jobId : JobId) :
    Sched Response := do
  let options := request.options.process.processJobOptions request.sessionId
  let needs := request.options.process.needs
  match ← admitResourceScope env jobId request.scopeHash needs with
  | .ok (.pending reason) => do
      enterJob request leaf jobId .pending request.scopeHash (some reason)
      recordResourcePending jobId reason ⟨leaf.plan, request.scopeHash, options, needs⟩
      return .ok (.jobCreated jobId request.scopeHash request.warnings)
  | .ok (.granted spawnScope) => do
      enterJob request leaf jobId .running spawnScope none
      match ← spawnProcessJob env jobId leaf.plan spawnScope options with
      | .error message => return failedResponse (← failJob env jobId spawnScope) "INTERNAL" message
      | .ok () => return .ok (.jobCreated jobId spawnScope request.warnings)
  | .error message => do
      enterJob request leaf jobId .running request.scopeHash (some message)
      return failedResponse (← failJob env jobId request.scopeHash) "INTERNAL" message

/-- The state of a chain none of whose leaves has been started. -/
def SpawnChainRequest.chainState (request : SpawnChainRequest) : ChainState where
  node := request.chain
  leafJobs := .empty
  leafStatus := fun index => if index < request.chain.leafCount then some .pending else none
  scopeHash := request.scopeHash
  pipelineText := request.chain.display
  process := request.options.process
  scopeEnabled := request.options.scopeEnabled
  sessionId := request.sessionId

/-- Activate a chain and start its first leaves. -/
def spawnLeaves (request : SpawnChainRequest) : Sched Response := do
  let chainId ← allocChain
  let ready := initiallyReady request.chain
  modify fun state => { state with chains := state.chains.insert chainId request.chainState }
  let outcome ← processChainAdvance env
    { chainId := chainId
      newlyReady := ready.map (·, request.scopeHash)
      toCancel := []
      captureFirst := ready.length
      retainCompletedChain := request.retainCompletedChain }
  match outcome.spawnError, outcome.persistError with
  | some error, some persistError =>
      return errorResponse "INTERNAL" (error ++ "; " ++ persistError)
  | some error, none => return errorResponse "INTERNAL" error
  | none, some error => return errorResponse "INTERNAL" error
  | none, none =>
      match (buildChainInfo (← get) chainId).or outcome.completedChain with
      | none =>
          let message := chainText chainId ++ ": chain state unavailable after creation"
          return errorResponse "INTERNAL" message
      | some info =>
          return .ok (.chainCreated chainId outcome.capturedJobIds info request.warnings)

/-- Run a chain, or a single job if the chain has one leaf only. -/
def spawnChain (request : SpawnChainRequest) : Sched Response := do
  record (.spawned request.chain request.scopeHash)
  match if request.options.scopeEnabled then validateScopeTransformSupport request.chain
    else .ok () with
  | .error message => return errorResponse "INVALID_SYNTAX" message
  | .ok () =>
      match flattenLeaves request.chain with
      | [leaf] => do
          let jobId ← allocJob
          if request.options.scopeEnabled then spawnScopeJob env request leaf jobId
          else spawnProcess env request leaf jobId
      | _ => spawnLeaves env request

end Spawn

section Retry

/-- Store that a job which waited for resources is running. -/
def resumeJob (jobId : JobId) (spawnScope : ScopeHash) : Sched Unit :=
  modify fun state => { state with
    jobs := state.jobs.modify jobId fun entry => { entry with
      status := .running, pendingReason := none, startScope := some spawnScope }
    chains := match state.jobToChain.get jobId with
      | none => state.chains
      | some (chainId, index) => state.chains.modify chainId fun chain =>
          { chain with leafStatus := Function.update chain.leafStatus index (some .running) } }

/-- Try again to admit a job taken from the queue. What its end asks of a chain or a script is not
done. -/
def retryAdmission (jobId : JobId) (pending : PendingResourceAdmission) : Sched Unit := do
  match ← admitResourceScope env jobId pending.baseScope pending.needs with
  | .ok (.pending reason) =>
      modify fun state => { state with
        jobs := state.jobs.modify jobId fun entry => { entry with pendingReason := some reason }
        pendingResourceJobs := state.pendingResourceJobs ++ [jobId] }
  | .ok (.granted spawnScope) => do
      modify fun state => { state with pendingResource := state.pendingResource.erase jobId }
      resumeJob jobId spawnScope
      match ← spawnProcessJob env jobId pending.plan spawnScope pending.options with
      | .ok () => return ()
      | .error _ => do
          record (.retryFailed jobId)
          let _ ← failJob env jobId spawnScope
  | .error error => do
      modify fun state => { state with
        pendingResource := state.pendingResource.erase jobId
        jobs := state.jobs.modify jobId fun entry => { entry with pendingReason := some error } }
      record (.retryFailed jobId)
      let _ ← failJob env jobId pending.baseScope

/-- One round of the retry loop. -/
def retryNext : Sched Unit := do
  let state ← get
  match state.pendingResourceJobs with
  | [] => return ()
  | jobId :: rest => do
      modify fun state => { state with pendingResourceJobs := rest }
      match state.pendingResource.get jobId with
      | none => return ()
      | some pending =>
          if (state.jobs.get jobId).any fun entry => entry.status = .pending then
            retryAdmission env jobId pending
          else
            modify fun state => { state with pendingResource := state.pendingResource.erase jobId }

def retryRounds : ℕ → Sched Unit
  | 0 => return ()
  | rounds + 1 => do
      retryNext env
      retryRounds rounds

def retryPendingResourceAdmissions : Sched Unit := do
  retryRounds env (← get).pendingResourceJobs.length

end Retry

section Ends

/-- The advance after the end of a job; its persistence error is only reported. -/
def advanceChainOf (outcome : TerminalStateOutcome) : Sched (Option String) :=
  match outcome.chainAdvance with
  | none => return none
  | some advance => do
      let result ← processChainAdvance env
        { chainId := advance.chainId, newlyReady := advance.newlyReady, toCancel := advance.toCancel }
      return result.persistError

def handleJobFinished (jobId : JobId) (exitCode : ℤ) : Sched Unit := do
  let status := if exitCode = 0 then JobStatus.done else .failed
  let outcome ← setJobTerminalState env jobId ⟨status, exitCode, none, true⟩
  let _ ← advanceChainOf env outcome
  retryPendingResourceAdmissions env

variable (resume : PendingScriptRun → Sched Unit)

/-- The run of a script ends with the failure of the item it waited for. -/
def finishPendingScriptFailed (pending : PendingScriptRun) (exitCode : ℤ) : Sched Unit := do
  -- A failed write of the script record is only reported.
  let _ ← ask env.storageError
  record (.scriptFinished pending.scriptId exitCode pending.waitingIndex)

/-- The item a script waited for has ended. -/
def advancePendingScript (pending : PendingScriptRun) (result : ScriptItemResult) (exitCode : ℤ)
    (scope : Option ScopeHash) : Sched Unit := do
  record (.itemEnded pending.scriptId pending.waitingIndex result exitCode)
  let pending := { pending with
    itemScope := scope.getD pending.itemScope, lastExitCode := exitCode }
  if exitCode ≠ 0 then finishPendingScriptFailed env pending exitCode else resume pending

/-- Let the script go on that waited for a complete chain. -/
def advanceScriptOfChain (chainId : ChainId) : Sched Unit := do
  let state ← get
  match state.completedChains.get chainId with
  | none => return ()
  | some completion => do
      modify fun state => { state with completedChains := state.completedChains.erase chainId }
      match state.pendingScriptChains.get chainId with
      | none => return ()
      | some scriptId => do
          modify fun state =>
            { state with pendingScriptChains := state.pendingScriptChains.erase chainId }
          match state.pendingScripts.get scriptId with
          | none => return ()
          | some pending => do
              modify fun state => { state with pendingScripts := state.pendingScripts.erase scriptId }
              advancePendingScript env resume pending (.chain chainId) completion.exitCode
                completion.endScope

def advancePendingScriptsAfterCompletedChains : Sched Unit := do
  let state ← get
  let finished := state.pendingScriptChains.keys.filter fun chainId =>
    (state.completedChains.get chainId).isSome
  let order ← ask fun question => env.walk question (finished.sort (· ≤ ·))
  order.forM (advanceScriptOfChain env resume)

def scriptExitCodeForJob (state : SchedulerState) (jobId : JobId) (reportedExitCode : ℤ) : ℤ :=
  match state.jobs.get jobId with
  | none => reportedExitCode
  | some entry =>
      if entry.status.isTerminal then entry.exitCode.getD reportedExitCode else reportedExitCode

/-- Let the script go on that waited for a single job. -/
def advanceScriptOfJob (jobId : JobId) (reportedExitCode : ℤ) : Sched Unit := do
  let state ← get
  match state.pendingScriptJobs.get jobId with
  | none => return ()
  | some scriptId => do
      modify fun state => { state with pendingScriptJobs := state.pendingScriptJobs.erase jobId }
      match state.pendingScripts.get scriptId with
      | none => return ()
      | some pending => do
          modify fun state => { state with pendingScripts := state.pendingScripts.erase scriptId }
          advancePendingScript env resume pending (.job jobId)
            (scriptExitCodeForJob state jobId reportedExitCode)
            ((state.jobs.get jobId).bind fun entry => entry.endScope.or entry.startScope)

def advancePendingScriptsAfterTerminalJob (jobId : JobId) (reportedExitCode : ℤ) : Sched Unit := do
  advanceScriptOfJob env resume jobId reportedExitCode
  advancePendingScriptsAfterCompletedChains env resume

/-- A user ends a job. -/
def applyUserTerminalJobUpdate (jobId : JobId) (update : TerminalStateUpdate) :
    Sched (Option String) := do
  let outcome ← setJobTerminalState env jobId update
  let advanceError ← advanceChainOf env outcome
  retryPendingResourceAdmissions env
  advancePendingScriptsAfterTerminalJob env resume jobId update.exitCode
  return outcome.persistError.or advanceError

def cancelJobExecution (jobId : JobId) : Sched (Except String Unit) := do
  let state ← get
  match state.jobs.get jobId with
  | none =>
      if jobId < state.nextJob then return .ok ()
      else return .error ("job " ++ jobText jobId ++ " not found")
  | some entry =>
      if entry.status.isTerminal then return .ok ()
      else do
        match ← if entry.status = .running then cancelProcessJob env jobId else pure (.ok ()) with
        | .error error => return .error error
        | .ok () => do
            match ← applyUserTerminalJobUpdate env resume jobId
                ⟨.cancelled .user, exitCodeUnavailable, none, true⟩ with
            | some error => return .error error
            | none => return .ok ()

def cancelChainExecution (chainId : ChainId) : Sched (Except String Unit) := do
  let state ← get
  match state.chains.get chainId with
  | none =>
      if chainId < state.nextChain then return .ok ()
      else return .error ("chain " ++ chainText chainId ++ " not found")
  | some chain => do
      let outcome ← processChainAdvance env
        { chainId := chainId
          newlyReady := []
          toCancel := (flattenLeaves chain.node).map FlatLeaf.index }
      match outcome.spawnError.or outcome.persistError with
      | some error => do
          record (.cancelUnsaved chainId)
          return .error error
      | none => do
          advancePendingScriptsAfterCompletedChains env resume
          return .ok ()

/-- The first key whose value is the given script. -/
def ownedBy (links : Table ℕ ScriptId) (scriptId : ScriptId) : Option ℕ :=
  ((links.keys.filter fun key => links.get key = some scriptId).sort (· ≤ ·)).head?

/-- Cancel the item a script waits for, without the script going on. -/
def cancelScriptItem (currentJob currentChain : Option ℕ) : Sched (Except String Unit) :=
  match currentJob, currentChain with
  | some jobId, _ => cancelJobExecution env resume jobId
  | none, some chainId => cancelChainExecution env resume chainId
  | none, none => return .ok ()

def cancelScriptExecution (scriptId : ScriptId) : Sched (Except String Unit) := do
  let state ← get
  match state.pendingScripts.get scriptId with
  | none =>
      if scriptId < state.nextScript then return .ok ()
      else return .error ("script " ++ scriptText scriptId ++ " not found")
  | some pending => do
      let currentJob := ownedBy state.pendingScriptJobs scriptId
      let currentChain := ownedBy state.pendingScriptChains scriptId
      -- The links go first, so that the end of the item does not make the script go on.
      modify fun state => { state with
        pendingScripts := state.pendingScripts.erase scriptId
        pendingScriptJobs := currentJob.elim state.pendingScriptJobs state.pendingScriptJobs.erase
        pendingScriptChains :=
          currentChain.elim state.pendingScriptChains state.pendingScriptChains.erase }
      record (.scriptStopped scriptId)
      let result ← cancelScriptItem env resume currentJob currentChain
      finishPendingScriptFailed env pending exitCodeUnavailable
      return result

end Ends

end CueShell
