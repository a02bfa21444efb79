import CueShell.Model.Scheduler.State

/-! # Execution of jobs and chains

How jobs are started, held back for resources and ended, and how the end of a job advances its chain.
Every function that ends a job goes through `setJobTerminalState`, which returns what the chain of the
job has to do next; the caller has to do it. Events for subscribers are left out.
-/

namespace CueShell

def chainText (chainId : ChainId) : String := "CH" ++ toString chainId
def cronText (cronId : CronId) : String := "C" ++ toString cronId
def scriptText (scriptId : ScriptId) : String := "R" ++ toString scriptId

section ScopeTransforms

inductive ScopeTransform where
  | cd (path : String)
  | envSet (assignments : List String)
deriving DecidableEq, Repr

def scopeTransformFromCommand : List String → Except String (Option ScopeTransform)
  | [] => .ok none
  | "cd" :: args =>
      match args with
      | [path] => .ok (some (.cd path))
      | _ => .error ("`cd` inside `:run` only accepts a single path (e.g. `cd /some/dir`).\n" ++
          "To combine `cd` with other commands, use a chain: `cd /some/dir -> cargo build`.\n" ++
          "Or pass cwd via mode param: `:run(cwd=/some/dir) cargo build`.")
  | "env" :: "set" :: assignments =>
      if assignments = [] then
        .error ("`env set` inside `:run` needs at least one KEY=VALUE pair.\n" ++
          "Example: `env set RUST_BACKTRACE=1 -> cargo test`.")
      else .ok (some (.envSet assignments))
  | _ => .ok none

/-- The loop over the segments; `found` is the transform of the segments before. -/
def scopeTransformFromSegments (alone : Bool) :
    Option ScopeTransform → List PipeSegment → Except String (Option ScopeTransform)
  | found, [] => .ok found
  | found, segment :: rest => do
      match ← scopeTransformFromCommand segment.command with
      | none => scopeTransformFromSegments alone found rest
      | some transform =>
          if alone then scopeTransformFromSegments alone (some transform) rest
          else .error "scope-transform steps are not supported inside pipelines yet"

def scopeTransformFromPipeline (pipeline : Pipeline) : Except String (Option ScopeTransform) :=
  scopeTransformFromSegments (pipeline.segments.length == 1) none pipeline.segments

def scopeTransformFromJobPlan : JobPlan → Except String (Option ScopeTransform)
  | .pipeline body => scopeTransformFromPipeline body
  | .and left right | .or left right => do
      let leftTransform ← scopeTransformFromJobPlan left
      let rightTransform ← scopeTransformFromJobPlan right
      if leftTransform.isSome || rightTransform.isSome then
        .error "scope-transform steps are not supported inside job-local &&/|| expressions yet"
      else .ok none

def subtreeContainsScopeTransform : ChainNode → Except String Bool
  | .leaf plan => do return (← scopeTransformFromJobPlan plan).isSome
  | .serial left _ right | .parallel left _ right => do
      if ← subtreeContainsScopeTransform left then return true
      subtreeContainsScopeTransform right

def validateScopeTransformSupport : ChainNode → Except String Unit
  | .leaf plan => do
      let _ ← scopeTransformFromJobPlan plan
  | .serial left _ right => do
      validateScopeTransformSupport left
      validateScopeTransformSupport right
  | .parallel left _ right => do
      if (← subtreeContainsScopeTransform left) then
        .error "scope-transform jobs are not supported inside parallel chains yet"
      else if (← subtreeContainsScopeTransform right) then
        .error "scope-transform jobs are not supported inside parallel chains yet"
      else .ok ()

end ScopeTransforms

variable (env : Env)

section Resources

inductive ResourceAdmission where
  | granted (scope : ScopeHash)
  | pending (reason : String)
deriving DecidableEq, Repr

/-- Store a value in a map ordered by key. -/
def insertKey (key value : String) : List (String × String) → List (String × String)
  | [] => [(key, value)]
  | (name, old) :: rest =>
      if key = name then (key, value) :: rest
      else if key < name then (key, value) :: (name, old) :: rest
      else (name, old) :: insertKey key value rest

/-- The variables of all grants; later ones win. -/
def grantedVariables (grants : List Grant) : List (String × String) :=
  (grants.flatMap Reservation.env).foldl (fun found (key, value) => insertKey key value found) []

/-- `ProviderRegistry::try_reserve`: either every grant is tracked for the job, or none. -/
def tryReserve (jobId : JobId) (needs : Need) : Sched (Except String (List Grant)) := do
  match ← ask fun question => env.tryReserve question jobId needs with
  | .error reason => return .error reason
  | .ok grants => do
      modify fun state =>
        let tracked := (state.reservations.get jobId).getD []
        { state with reservations := state.reservations.insert jobId (tracked ++ grants) }
      return .ok grants

def releaseResources (jobId : JobId) : Sched Unit :=
  modify fun state => { state with reservations := state.reservations.erase jobId }

/-- The scope a job runs in, or the reason why it has to wait. -/
def admitResourceScope (jobId : JobId) (baseScope : ScopeHash) (needs : Need) :
    Sched (Except String ResourceAdmission) :=
  if needs = [] then return .ok (.granted baseScope)
  else do
    match ← tryReserve env jobId needs with
    | .error reason => return .ok (.pending reason)
    | .ok grants =>
        let granted := grantedVariables grants
        if granted = [] then return .ok (.granted baseScope)
        else do
          match ← ask fun question => env.deriveScope question baseScope { set := granted } with
          | .ok scope => do
              record (.admitted jobId baseScope grants scope)
              return .ok (.granted scope)
          | .error error => do
              releaseResources jobId
              return .error ("derive resource scope: " ++ error)

def recordResourcePending (jobId : JobId) (reason : String) (pending : PendingResourceAdmission) :
    Sched Unit :=
  modify fun state => { state with
    jobs := state.jobs.modify jobId fun entry =>
      { entry with status := .pending, pendingReason := some reason }
    pendingResource := state.pendingResource.insert jobId pending
    pendingResourceJobs :=
      if jobId ∈ state.pendingResourceJobs then state.pendingResourceJobs
      else state.pendingResourceJobs ++ [jobId] }

def forgetResourcePending (jobId : JobId) : Sched Unit :=
  modify fun state => { state with
    pendingResource := state.pendingResource.erase jobId
    pendingResourceJobs := state.pendingResourceJobs.filter (· ≠ jobId) }

end Resources

section Processes

def spawnProcessJob (jobId : JobId) (plan : JobPlan) (scope : ScopeHash)
    (options : ProcessJobOptions) : Sched (Except String Unit) := do
  match ← ask fun question => env.spawnJob question jobId with
  | .error error => return .error error
  | .ok () => do
      let held := ((← get).reservations.get jobId).getD []
      record (.launched jobId plan scope options held)
      return .ok ()

def killProcessJob (jobId : JobId) : Sched (Except String Unit) :=
  ask fun question => env.killJob question jobId

/-- A process that is already gone counts as stopped. -/
def cancelProcessJob (jobId : JobId) : Sched (Except String Unit) := do
  match ← killProcessJob env jobId with
  | .ok () => return .ok ()
  | .error error =>
      if error = "job " ++ jobText jobId ++ " not found" then return .ok () else return .error error

def persistJobEntry (jobId : JobId) (status : JobStatus) : Sched (Option String) := do
  match ← ask env.storageError with
  | some error => return some ("persist job " ++ jobText jobId ++ " history: " ++ error)
  | none => do
      modify fun state => { state with history := state.history.insert jobId status }
      return none

end Processes

section TerminalState

structure TerminalStateUpdate where
  status : JobStatus
  exitCode : ℤ
  endScope : Option ScopeHash
  advanceChain : Bool
deriving DecidableEq, Repr

structure ChainAdvance where
  chainId : ChainId
  newlyReady : List (ℕ × ScopeHash)
  toCancel : List ℕ
deriving DecidableEq, Repr

structure TerminalStateOutcome where
  chainAdvance : Option ChainAdvance := none
  persistError : Option String := none
deriving DecidableEq, Repr

def leafStatusFor (exitCode : ℤ) : JobStatus → LeafStatus
  | .done => .done exitCode
  | .failed | .killed => .failed exitCode
  | .cancelled _ => .cancelled
  | .pending => .pending
  | .running => .running

/-- Store the status of one leaf, if the chain is still active. -/
def setLeafStatus (chainId : ChainId) (index : ℕ) (status : LeafStatus) : Sched Unit :=
  modify fun state => { state with chains := state.chains.modify chainId fun chain =>
    { chain with leafStatus := Function.update chain.leafStatus index (some status) } }

def notifyJobWaiters (jobId : JobId) : Sched Unit := do
  let state ← get
  match state.jobWaiters.get jobId with
  | none => return ()
  | some waiters => do
      modify fun state => { state with jobWaiters := state.jobWaiters.erase jobId }
      match state.jobs.get jobId with
      | none => return ()
      | some entry =>
          waiters.forM fun waiter =>
            record (.replied waiter.clientId waiter.requestId (.ok (.jobInfo jobId entry)))

/-- What the chain has to do now that one of its leaves has ended. -/
def chainAdvanceAfter (chainId : ChainId) (leafIdx : ℕ) (endScope : Option ScopeHash) :
    Sched (Option ChainAdvance) := do
  match (← get).chains.get chainId with
  | none => return none
  | some chain => do
      let nextScope := endScope.getD chain.scopeHash
      let transition := advanceChain chain.node leafIdx chain.leafStatus
      record (.advanced chainId transition.newlyReady transition.toCancel nextScope)
      return some ⟨chainId, transition.newlyReady.map (·, nextScope), transition.toCancel⟩

/-- Pass the end of a job on to its leaf. -/
def endLeaf (jobId : JobId) (update : TerminalStateUpdate) (endScope : Option ScopeHash) :
    Sched (Option ChainAdvance) := do
  match (← get).jobToChain.get jobId with
  | none => return none
  | some (chainId, leafIdx) => do
      setLeafStatus chainId leafIdx (leafStatusFor update.exitCode update.status)
      if update.advanceChain then chainAdvanceAfter chainId leafIdx endScope else return none

/-- A second end of a job changes nothing but a missing end scope. -/
def completeEndScope (jobId : JobId) (entry : JobEntry) (endScope : Option ScopeHash) :
    Sched TerminalStateOutcome :=
  match entry.endScope, endScope.or entry.startScope with
  | none, some scope => do
      modify fun state => { state with jobs := state.jobs.insert jobId { entry with endScope := scope } }
      return { persistError := ← persistJobEntry env jobId entry.status }
  | _, _ => return {}

/-- The first end of a job. -/
def endJob (jobId : JobId) (update : TerminalStateUpdate) (entry : JobEntry) :
    Sched TerminalStateOutcome := do
  let endScope := update.endScope.or entry.startScope
  modify fun state => { state with jobs := state.jobs.insert jobId { entry with
    status := update.status, exitCode := some update.exitCode, endScope := endScope } }
  let persistError ← persistJobEntry env jobId update.status
  if update.status.isTerminal then do
    forgetResourcePending jobId
    releaseResources jobId
  notifyJobWaiters jobId
  let chainAdvance ← endLeaf jobId update endScope
  return ⟨chainAdvance, persistError⟩

def setJobTerminalState (jobId : JobId) (update : TerminalStateUpdate) :
    Sched TerminalStateOutcome := do
  match (← get).jobs.get jobId with
  | none => return {}
  | some entry =>
      if entry.status.isTerminal then completeEndScope env jobId entry update.endScope
      else endJob env jobId update entry

/-- The end of a job that could not be run. -/
def failJob (jobId : JobId) (endScope : ScopeHash) : Sched TerminalStateOutcome :=
  setJobTerminalState env jobId ⟨.failed, exitCodeUnavailable, some endScope, true⟩

end TerminalState

section Chains

def leafStatusToJobStatus : LeafStatus → JobStatus
  | .pending => .pending
  | .running => .running
  | .done _ => .done
  | .failed _ => .failed
  | .cancelled => .cancelled .chainAborted

def buildChainInfo (state : SchedulerState) (chainId : ChainId) : Option ChainInfo :=
  (state.chains.get chainId).map fun chain =>
    ⟨chainId, chain.pipelineText, (flattenLeaves chain.node).map fun leaf =>
      let jobId := chain.leafJobs.get leaf.index
      let entry := jobId.bind state.jobs.get
      { index := leaf.index
        pipelineText := leaf.pipelineText
        status := ((chain.leafStatus leaf.index).map leafStatusToJobStatus).getD .pending
        jobId := jobId
        startScope := entry.bind JobEntry.startScope
        endScope := entry.bind JobEntry.endScope }⟩

def chainFinalScope (chain : ChainState) (state : SchedulerState) : Option ScopeHash :=
  (List.range chain.node.leafCount).reverse.findSome? fun index => do
    let entry ← state.jobs.get (← chain.leafJobs.get index)
    entry.endScope.or entry.startScope

/-- Stop one leaf; a leaf whose process cannot be stopped stays as it is. -/
def cancelChainLeaf (chainId : ChainId) (index : ℕ) : Sched (Option String) := do
  let state ← get
  match (state.chains.get chainId).bind fun chain => chain.leafJobs.get index with
  | none => do
      setLeafStatus chainId index .cancelled
      return none
  | some jobId => do
      let isRunning := (state.jobs.get jobId).any fun entry => entry.status = .running
      match ← if isRunning then cancelProcessJob env jobId else pure (.ok ()) with
      | .error _ => do
          record (.killRefused jobId)
          return none
      | .ok () => do
          let terminal ← setJobTerminalState env jobId
            ⟨.cancelled .chainAborted, exitCodeUnavailable, none, false⟩
          return terminal.persistError

/-- Cancel leaves in order; the first persistence error is kept. -/
def cancelChainLeaves (chainId : ChainId) : List ℕ → Sched (Option String)
  | [] => return none
  | index :: rest => do
      let error ← cancelChainLeaf env chainId index
      let later ← cancelChainLeaves chainId rest
      return error.or later

structure ChainAdvanceOutcome where
  capturedJobIds : List JobId := []
  completedChain : Option ChainInfo := none
  spawnError : Option String := none
  persistError : Option String := none
deriving DecidableEq, Repr

structure ChainAdvanceRequest where
  chainId : ChainId
  newlyReady : List (ℕ × ScopeHash)
  toCancel : List ℕ
  captureFirst : ℕ := 0
  retainCompletedChain : Bool := false
deriving DecidableEq, Repr

/-- What all leaves of one chain share. -/
structure ChainContext where
  chainId : ChainId
  leaves : List FlatLeaf
  options : ChainExecutionOptions
  sessionId : Option SessionId

/-- Enter the job of a leaf in all tables, as running. -/
def enterLeaf (context : ChainContext) (leaf : FlatLeaf) (index : ℕ) (startScope : ScopeHash)
    (jobId : JobId) : Sched Unit :=
  modify fun state => { state with
    chains := state.chains.modify context.chainId fun chain => { chain with
      leafJobs := chain.leafJobs.insert index jobId
      leafStatus := Function.update chain.leafStatus index (some .running) }
    jobToChain := state.jobToChain.insert jobId (context.chainId, index)
    jobs := state.jobs.insert jobId
      { sessionId := context.sessionId
        pipelineText := leaf.pipelineText
        status := .running
        exitCode := none
        startScope := some startScope
        endScope := none
        chainId := some context.chainId
        chainIndex := some index
        chainTotal := some context.leaves.length
        pendingReason := none } }

/-- Admit and launch the process of a leaf: how it ended if it could not run, and why it was not
spawned. -/
def launchLeaf (context : ChainContext) (leaf : FlatLeaf) (index : ℕ) (startScope : ScopeHash)
    (jobId : JobId) : Sched (Option TerminalStateOutcome × Option String) := do
  let options := context.options.process.processJobOptions context.sessionId
  let needs := context.options.process.needs
  match ← admitResourceScope env jobId startScope needs with
  | .ok (.pending reason) => do
      setLeafStatus context.chainId index .pending
      recordResourcePending jobId reason ⟨leaf.plan, startScope, options, needs⟩
      return (none, none)
  | .ok (.granted spawnScope) => do
      modify fun state => { state with jobs := state.jobs.modify jobId fun entry =>
        { entry with startScope := some spawnScope } }
      match ← spawnProcessJob env jobId leaf.plan spawnScope options with
      | .ok () => return (none, none)
      | .error error => return (some (← failJob env jobId spawnScope), some error)
  | .error error => do
      modify fun state => { state with jobs := state.jobs.modify jobId fun entry =>
        { entry with pendingReason := some error } }
      return (some (← failJob env jobId startScope), none)

/-- Run a leaf that has just been entered. In a scope-enabled chain every leaf is taken for a scope
transform: the source tests the nested option for `Some(_)` only. -/
def runLeaf (context : ChainContext) (leaf : FlatLeaf) (index : ℕ) (startScope : ScopeHash)
    (jobId : JobId) : Sched (Option TerminalStateOutcome × Option String) :=
  if context.options.scopeEnabled then
    match scopeTransformFromCommand leaf.command with
    | .error _ => do return (some (← failJob env jobId startScope), none)
    | .ok _ => do
        match ← ask fun question => env.applyScopeTransform question startScope leaf.command with
        | .ok endScope =>
            return (some (← setJobTerminalState env jobId ⟨.done, 0, some endScope, true⟩), none)
        | .error _ => return (some (← failJob env jobId startScope), none)
  else launchLeaf env context leaf index startScope jobId

/-- The advance of a leaf that ended at once: cancel, and queue what became ready. -/
def applyTerminalChainAdvance (chainId : ChainId) (terminal : TerminalStateOutcome)
    (outcome : ChainAdvanceOutcome) (queue : List (ℕ × ScopeHash)) :
    Sched (ChainAdvanceOutcome × List (ℕ × ScopeHash)) := do
  let outcome := { outcome with persistError := outcome.persistError.or terminal.persistError }
  match terminal.chainAdvance with
  | none => return (outcome, queue)
  | some advance => do
      let error ← cancelChainLeaves env chainId advance.toCancel
      return ({ outcome with persistError := outcome.persistError.or error },
        queue ++ advance.newlyReady)

/-- Enter and run the first leaf of the queue. -/
def startLeaf (context : ChainContext) (leaf : FlatLeaf) (index : ℕ) (startScope : ScopeHash)
    (jobId : JobId) (outcome : ChainAdvanceOutcome) (queue : List (ℕ × ScopeHash)) :
    Sched (ChainAdvanceOutcome × List (ℕ × ScopeHash)) := do
  enterLeaf context leaf index startScope jobId
  let (terminal, spawnError) ← runLeaf env context leaf index startScope jobId
  let outcome := { outcome with spawnError := outcome.spawnError.or spawnError }
  match terminal with
  | none => return (outcome, queue)
  | some terminal => applyTerminalChainAdvance env context.chainId terminal outcome queue

/-- The ids of the first jobs are reported to the caller. -/
def ChainAdvanceOutcome.capture (outcome : ChainAdvanceOutcome) (captureFirst : ℕ) (jobId : JobId) :
    ChainAdvanceOutcome :=
  if outcome.capturedJobIds.length < captureFirst then
    { outcome with capturedJobIds := outcome.capturedJobIds ++ [jobId] }
  else outcome

/-- The loop of `processChainAdvance`. It stops when the chain has left the table. -/
def startQueue (context : ChainContext) (captureFirst : ℕ) :
    ℕ → ChainAdvanceOutcome → List (ℕ × ScopeHash) → Sched ChainAdvanceOutcome
  | 0, outcome, _ => return outcome
  | _ + 1, outcome, [] => return outcome
  | rounds + 1, outcome, (index, startScope) :: queue => do
      let jobId ← allocJob
      match (← get).chains.get context.chainId, context.leaves[index]? with
      | some chain, some leaf => do
          record (.entered context.chainId index (chain.leafStatus index))
          let (outcome, queue) ← startLeaf env context leaf index startScope jobId
            (outcome.capture captureFirst jobId) queue
          startQueue context captureFirst rounds outcome queue
      | _, _ => return outcome.capture captureFirst jobId

/-- Whether a job belongs to a leaf of the chain. -/
def ChainState.ownsJob (chain : ChainState) (jobId : JobId) : Bool :=
  chain.leafJobs.keys.filter (fun index => chain.leafJobs.get index = some jobId) ≠ ∅

/-- Take a complete chain off the table. -/
def closeChain (chainId : ChainId) (chain : ChainState) (retain : Bool) : Sched Unit := do
  let state ← get
  let completion : ChainCompletion :=
    ⟨aggregateChainExitCode chain.node chain.leafStatus, chainFinalScope chain state⟩
  record (.closed chainId chain)
  modify fun state => { state with
    completedChains := if retain || (state.pendingScriptChains.get chainId).isSome then
      state.completedChains.insert chainId completion else state.completedChains
    chains := state.chains.erase chainId
    jobToChain := state.jobToChain.retain fun jobId _ => !chain.ownsJob jobId }

/-- Enough rounds for the queue: a leaf makes only later leaves ready. -/
def queueRounds (chain : ChainNode) : ℕ := 2 ^ (chain.leafCount + 1)

/-- Cancel and start leaves, and close the chain if it is complete. -/
def processChainAdvance (request : ChainAdvanceRequest) : Sched ChainAdvanceOutcome := do
  let persistError ← cancelChainLeaves env request.chainId request.toCancel
  match (← get).chains.get request.chainId with
  | none => return { persistError := persistError }
  | some chain => do
      let context : ChainContext := ⟨request.chainId, flattenLeaves chain.node,
        ⟨chain.process, chain.scopeEnabled⟩, chain.sessionId⟩
      let outcome ← startQueue env context request.captureFirst (queueRounds chain.node)
        { persistError := persistError } request.newlyReady
      let state ← get
      match state.chains.get request.chainId with
      | none => return outcome
      | some chain =>
          if isChainTerminal chain.node chain.leafStatus then do
            closeChain request.chainId chain request.retainCompletedChain
            return { outcome with completedChain := buildChainInfo state request.chainId }
          else return outcome

end Chains

end CueShell
