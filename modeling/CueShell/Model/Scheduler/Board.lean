import CueShell.Model.Scheduler.Run
import Mathlib.Logic.Relation

/-! # The scheduler as a machine of small moves

A board is the state of the scheduler in the middle of a message. Beside the state it shows what is due
on one chain, leaves to cancel and leaves to start, and the scripts under way. A move changes jobs and
leaves of active chains; a step also opens and closes chains and takes jobs from the queue. Every
function that runs jobs is a sequence of such changes, so what each change keeps is kept by them all.
-/

namespace CueShell

/-- What is due on the chain under processing. -/
structure Work where
  chainId : ChainId
  doomed : List ℕ
  ready : List (ℕ × ScopeHash)

/-- What a script under way is about to do: submit its next item, wait for the answer to an item, or
report that it was stopped. -/
inductive ScriptMode where
  | idle
  | busy
  | stopped
deriving DecidableEq, Repr

structure RunningScript where
  script : PendingScriptRun
  mode : ScriptMode

structure Board extends SchedulerState where
  work : Option Work
  /-- The scripts under way, the innermost first. -/
  running : List RunningScript

/-- The jobs outside of chains that may end, and the chains that may be closed. -/
structure Targets where
  jobs : JobId → Prop
  chains : ChainId → Prop

/-- The board a state shows while some work is due. -/
def SchedulerState.board (state : SchedulerState) (work : Option Work)
    (running : List RunningScript) : Board :=
  { state with work := work, running := running }

/-- A chain without what its leaves have done. -/
def ChainState.shape (chain : ChainState) : ChainState :=
  { chain with leafJobs := .empty, leafStatus := fun _ => none }

def ChainState.setLeaf (chain : ChainState) (index : ℕ) (status : LeafStatus) : ChainState :=
  { chain with leafStatus := Function.update chain.leafStatus index (some status) }

/-- The job of a leaf is entered. -/
def ChainState.enter (chain : ChainState) (index : ℕ) (jobId : JobId) (status : LeafStatus) :
    ChainState :=
  { chain with
    leafJobs := chain.leafJobs.insert index jobId
    leafStatus := Function.update chain.leafStatus index (some status) }

/-- The entry of a job once it has ended. -/
def JobEntry.ended (entry : JobEntry) (update : TerminalStateUpdate) : JobEntry :=
  { entry with
    status := update.status
    exitCode := some update.exitCode
    endScope := update.endScope.or entry.startScope }

/-- How the leaf of a cancelled chain ends. -/
def abortion : TerminalStateUpdate := ⟨.cancelled .chainAborted, exitCodeUnavailable, none, false⟩

/-- No leaf of the chain has been started. -/
structure ChainState.Fresh (chain : ChainState) : Prop where
  leafJobs : chain.leafJobs = .empty
  leafStatus : ∀ index, chain.leafStatus index =
    if index < chain.node.leafCount then some .pending else none

namespace Board

variable (board : Board)

/-- Store the status of a leaf, if it belongs to an active chain. -/
def setLeaf (place : Option (ChainId × ℕ)) (status : LeafStatus) : Table ChainId ChainState :=
  match place with
  | none => board.chains
  | some (chainId, index) => board.chains.modify chainId fun chain => chain.setLeaf index status

/-- What the clients that wait for a job are told. -/
def answers (jobId : JobId) (entry : JobEntry) : List SchedulerEvent :=
  ((board.jobWaiters.get jobId).getD []).map fun waiter =>
    .replied waiter.clientId waiter.requestId (.ok (.jobInfo jobId entry))

/-- The first end of a job: it leaves the queue, gives back its resources, answers those who wait for
it and passes its end on to its leaf. -/
def finish (jobId : JobId) (entry : JobEntry) (update : TerminalStateUpdate) : Board :=
  { board with
    jobs := board.jobs.insert jobId (entry.ended update)
    pendingResourceJobs := board.pendingResourceJobs.filter (· ≠ jobId)
    pendingResource := board.pendingResource.erase jobId
    reservations := board.reservations.erase jobId
    jobWaiters := board.jobWaiters.erase jobId
    log := board.log ++ board.answers jobId (entry.ended update)
    chains := board.setLeaf (board.jobToChain.get jobId)
      (leafStatusFor update.exitCode update.status) }

/-- The active chain a job belongs to, with the leaf. -/
def place (jobId : JobId) : Option (ChainId × ℕ × ChainState) :=
  (board.jobToChain.get jobId).bind fun (chainId, index) =>
    (board.chains.get chainId).map fun chain => (chainId, index, chain)

/-- The end of a job makes work on its chain. What was due before comes first. -/
def follow (jobId : JobId) (endScope : Option ScopeHash) : Board :=
  match board.place jobId with
  | none => board
  | some (chainId, index, chain) =>
      let transition := advanceChain chain.node index chain.leafStatus
      { board with
        log := board.log ++ [.advanced chainId transition.newlyReady transition.toCancel
          (endScope.getD chain.scopeHash)]
        work := some ⟨chainId, transition.toCancel, (board.work.elim [] Work.ready) ++
          transition.newlyReady.map (·, endScope.getD chain.scopeHash)⟩ }

/-- A chain is handed over for execution. -/
def request (asked : SpawnChainRequest) : Board :=
  { board with log := board.log ++ [.spawned asked.chain asked.scopeHash] }

/-- A job that is no part of a chain gets the next number. -/
def enterJob (entry : JobEntry) : Board :=
  { board with
    nextJob := board.nextJob + 1
    jobs := board.jobs.insert board.nextJob entry }

/-- The first leaf that is ready gets a job with the next number. -/
def enterLeaf (chainId : ChainId) (chain : ChainState) (index : ℕ) (ready : List (ℕ × ScopeHash))
    (status : LeafStatus) (entry : JobEntry) : Board :=
  { board with
    nextJob := board.nextJob + 1
    chains := board.chains.modify chainId fun chain => chain.enter index board.nextJob status
    jobToChain := board.jobToChain.insert board.nextJob (chainId, index)
    jobs := board.jobs.insert board.nextJob entry
    log := board.log ++ [.entered chainId index (chain.leafStatus index)]
    work := some ⟨chainId, [], ready⟩ }

/-- Admission failed for now. -/
def park (jobId : JobId) (pending : PendingResourceAdmission) : Board :=
  { board with
    pendingResource := board.pendingResource.insert jobId pending
    pendingResourceJobs := if jobId ∈ board.pendingResourceJobs then board.pendingResourceJobs
      else board.pendingResourceJobs ++ [jobId] }

/-- The first job of the queue gets its resources after all. -/
def resume (jobId : JobId) (waiting : List JobId) (entry : JobEntry) (scope : ScopeHash) : Board :=
  { board with
    pendingResourceJobs := waiting
    pendingResource := board.pendingResource.erase jobId
    jobs := board.jobs.insert jobId
      { entry with status := .running, pendingReason := none, startScope := some scope }
    chains := board.setLeaf (board.jobToChain.get jobId) .running }

/-- A new chain, all of whose entry leaves are ready. -/
def activate (chain : ChainState) : Board :=
  { board with
    nextChain := board.nextChain + 1
    chains := board.chains.insert board.nextChain chain
    work := some ⟨board.nextChain, [], (initiallyReady chain.node).map (·, chain.scopeHash)⟩ }

def close (chainId : ChainId) (chain : ChainState) (completed : Table ChainId ChainCompletion) :
    Board :=
  { board with
    chains := board.chains.erase chainId
    jobToChain := board.jobToChain.retain fun jobId _ => !chain.ownsJob jobId
    completedChains := completed
    log := board.log ++ [.closed chainId chain]
    work := none }

/-- The grants that are tracked for a job. -/
def held (jobId : JobId) : List Grant := (board.reservations.get jobId).getD []

/-- A job outside of all chains ends only if it is a target, or if it could not be started after it
had waited for resources. -/
def MayEnd (target : Targets) (jobId : JobId) : Prop :=
  target.jobs jobId ∨ (board.jobToChain.get jobId).isSome ∨ .retryFailed jobId ∈ board.log

end Board

/-- The entry of a job that has just been entered. -/
structure JobEntry.New (entry : JobEntry) (sessionId : Option SessionId) (base : ScopeHash) :
    Prop where
  sessionId : entry.sessionId = sessionId
  exitCode : entry.exitCode = none
  startScope : entry.startScope = some base
  endScope : entry.endScope = none
  unfinished : ¬ entry.status.isTerminal

/-- Changes of jobs and leaves. -/
inductive Board.Move (target : Targets) : Board → Board → Prop
  | ask {board : Board} : Move target board { board with question := board.question + 1 }
  | store {board : Board} (jobId : JobId) (entry : JobEntry)
      (found : board.jobs.get jobId = some entry) (ended : entry.status.isTerminal) :
      Move target board { board with history := board.history.insert jobId entry.status }
  | explain {board : Board} (jobId : JobId) (entry : JobEntry) (reason : Option String)
      (found : board.jobs.get jobId = some entry) :
      Move target board
        { board with jobs := board.jobs.insert jobId { entry with pendingReason := reason } }
  | complete {board : Board} (jobId : JobId) (entry : JobEntry) (scope : ScopeHash)
      (found : board.jobs.get jobId = some entry) (ended : entry.status.isTerminal) :
      Move target board
        { board with jobs := board.jobs.insert jobId { entry with endScope := some scope } }
  | reserve {board : Board} (jobId : JobId) (entry : JobEntry) (grants : List Grant)
      (found : board.jobs.get jobId = some entry) (unfinished : ¬ entry.status.isTerminal) :
      Move target board { board with
        reservations := board.reservations.insert jobId (board.held jobId ++ grants) }
  | release {board : Board} (jobId : JobId) :
      Move target board { board with reservations := board.reservations.erase jobId }
  | grant {board : Board} (jobId : JobId) (entry : JobEntry) (base : ScopeHash) (grants : List Grant)
      (scope : ScopeHash) (found : board.jobs.get jobId = some entry)
      (status : entry.status = .running) (start : entry.startScope = some base)
      (held : ∀ grant ∈ grants, grant ∈ board.held jobId) :
      Move target board { board with
        jobs := board.jobs.insert jobId { entry with startScope := some scope }
        log := board.log ++ [.admitted jobId base grants scope] }
  | launch {board : Board} (jobId : JobId) (entry : JobEntry) (plan : JobPlan) (scope : ScopeHash)
      (options : ProcessJobOptions) (found : board.jobs.get jobId = some entry)
      (status : entry.status = .running) (start : entry.startScope = some scope) :
      Move target board { board with
        log := board.log ++ [.launched jobId plan scope options (board.held jobId)] }
  | enterLeaf {board : Board} {chainId : ChainId} {chain : ChainState} {index : ℕ}
      {base : ScopeHash} {ready : List (ℕ × ScopeHash)} (entry : JobEntry)
      (due : board.work = some ⟨chainId, [], (index, base) :: ready⟩)
      (active : board.chains.get chainId = some chain) (process : chain.scopeEnabled = false)
      (inside : index < chain.node.leafCount) (fresh : entry.New chain.sessionId base)
      (status : entry.status = .running) :
      Move target board (board.enterLeaf chainId chain index ready .running entry)
  | parkLeaf {board : Board} {chainId : ChainId} {chain : ChainState} {index : ℕ}
      {ready : List (ℕ × ScopeHash)} (entry : JobEntry) (pending : PendingResourceAdmission)
      (due : board.work = some ⟨chainId, [], (index, pending.baseScope) :: ready⟩)
      (active : board.chains.get chainId = some chain) (process : chain.scopeEnabled = false)
      (inside : index < chain.node.leafCount)
      (fresh : entry.New chain.sessionId pending.baseScope) (status : entry.status = .pending) :
      Move target board
        ((board.enterLeaf chainId chain index ready .pending entry).park board.nextJob pending)
  | transform {board : Board} {chainId : ChainId} {chain : ChainState} {index : ℕ}
      {base : ScopeHash} {ready : List (ℕ × ScopeHash)} (entry : JobEntry)
      (update : TerminalStateUpdate)
      (due : board.work = some ⟨chainId, [], (index, base) :: ready⟩)
      (active : board.chains.get chainId = some chain) (transforms : chain.scopeEnabled = true)
      (inside : index < chain.node.leafCount) (fresh : entry.New chain.sessionId base)
      (ended : update.status.isTerminal) :
      Move target board
        (((board.enterLeaf chainId chain index ready .running entry).finish board.nextJob entry
          update).follow board.nextJob (entry.ended update).endScope)
  | finish {board : Board} (jobId : JobId) (entry : JobEntry) (update : TerminalStateUpdate)
      (found : board.jobs.get jobId = some entry) (unfinished : ¬ entry.status.isTerminal)
      (ended : update.status.isTerminal)
      (reason : board.MayEnd target jobId)
      (same : ∀ work, board.work = some work → work.doomed = [] ∧
        ∃ index, board.jobToChain.get jobId = some (work.chainId, index))
      (proper : update.status = .done ↔ update.exitCode = 0)
      (early : ∀ work, board.work = some work → work.ready ≠ [] → update.status ≠ .done) :
      Move target board
        ((board.finish jobId entry update).follow jobId (entry.ended update).endScope)
  | cancelIdle {board : Board} {chainId : ChainId} {index : ℕ} {doomed : List ℕ}
      {ready : List (ℕ × ScopeHash)} (due : board.work = some ⟨chainId, index :: doomed, ready⟩)
      (idle : (board.chains.get chainId).bind (fun chain => chain.leafJobs.get index) = none) :
      Move target board { board with
        chains := board.chains.modify chainId fun chain => chain.setLeaf index .cancelled
        work := some ⟨chainId, doomed, ready⟩ }
  | cancelLeaf {board : Board} {chainId : ChainId} {chain : ChainState} {index : ℕ}
      {doomed : List ℕ} {ready : List (ℕ × ScopeHash)} (jobId : JobId) (entry : JobEntry)
      (due : board.work = some ⟨chainId, index :: doomed, ready⟩)
      (active : board.chains.get chainId = some chain)
      (started : chain.leafJobs.get index = some jobId)
      (found : board.jobs.get jobId = some entry) (unfinished : ¬ entry.status.isTerminal) :
      Move target board { board.finish jobId entry abortion with
        work := some ⟨chainId, doomed, ready⟩ }
  | skip {board : Board} {chainId : ChainId} {chain : ChainState} {index : ℕ} {doomed : List ℕ}
      {ready : List (ℕ × ScopeHash)} (jobId : JobId)
      (due : board.work = some ⟨chainId, index :: doomed, ready⟩)
      (active : board.chains.get chainId = some chain)
      (started : chain.leafJobs.get index = some jobId)
      (past : ∀ entry, board.jobs.get jobId = some entry → entry.status.isTerminal) :
      Move target board { board with work := some ⟨chainId, doomed, ready⟩ }
  | refuse {board : Board} {chainId : ChainId} {chain : ChainState} {index : ℕ} {doomed : List ℕ}
      {ready : List (ℕ × ScopeHash)} (jobId : JobId) (entry : JobEntry)
      (due : board.work = some ⟨chainId, index :: doomed, ready⟩)
      (active : board.chains.get chainId = some chain)
      (started : chain.leafJobs.get index = some jobId)
      (found : board.jobs.get jobId = some entry) (status : entry.status = .running) :
      Move target board { board with
        log := board.log ++ [.killRefused jobId]
        work := some ⟨chainId, doomed, ready⟩ }

/-- Moves, and changes of the queue and of the set of active chains; new jobs and chains belong to the
request that is carried out. -/
inductive Board.Step (target : Targets) (request : Option SpawnChainRequest) :
    Board → Board → Prop
  | move {before after : Board} (change : Board.Move target before after) :
      Step target request before after
  | spawn {board : Board} (asked : SpawnChainRequest) (due : request = some asked) :
      Step target request board (board.request asked)
  | enterJob {board : Board} (asked : SpawnChainRequest) (entry : JobEntry)
      (due : request = some asked) (fresh : entry.New asked.sessionId asked.scopeHash)
      (status : entry.status = .running) :
      Step target request board ((board.request asked).enterJob entry)
  | parkJob {board : Board} (asked : SpawnChainRequest) (entry : JobEntry)
      (pending : PendingResourceAdmission) (due : request = some asked)
      (fresh : entry.New asked.sessionId asked.scopeHash) (status : entry.status = .pending)
      (base : pending.baseScope = asked.scopeHash) :
      Step target request board (((board.request asked).enterJob entry).park board.nextJob pending)
  | activate {board : Board} (asked : SpawnChainRequest) (due : request = some asked)
      (rest : board.work = none) :
      Step target request board ((board.request asked).activate asked.chainState)
  | begin {board : Board} (chainId : ChainId) (chain : ChainState)
      (active : board.chains.get chainId = some chain) (rest : board.work = none) :
      Step target request board { board with
        work := some ⟨chainId, (flattenLeaves chain.node).map FlatLeaf.index, []⟩ }
  | close {board : Board} {chainId : ChainId} (chain : ChainState)
      (completed : Table ChainId ChainCompletion) (due : board.work = some ⟨chainId, [], []⟩)
      (active : board.chains.get chainId = some chain) (allowed : target.chains chainId)
      (ended : isChainTerminal chain.node chain.leafStatus)
      (kept : completed = board.completedChains ∧ board.pendingScriptChains.get chainId = none ∨
        ∃ endScope, completed = board.completedChains.insert chainId
          ⟨aggregateChainExitCode chain.node chain.leafStatus, endScope⟩) :
      Step target request board (board.close chainId chain completed)
  | rest {board : Board} {chainId : ChainId} (due : board.work = some ⟨chainId, [], []⟩)
      (unfinished : ∀ chain, board.chains.get chainId = some chain →
        ¬ isChainTerminal chain.node chain.leafStatus) :
      Step target request board { board with work := none }
  | fault {board : Board} (jobId : JobId) :
      Step target request board { board with log := board.log ++ [.retryFailed jobId] }
  | drop {board : Board} (jobId : JobId) (fault : .retryFailed jobId ∈ board.log) :
      Step target request board { board with work := none }
  | lost {board : Board} {chainId : ChainId} {ready : List (ℕ × ScopeHash)}
      (due : board.work = some ⟨chainId, [], ready⟩) (gone : board.chains.get chainId = none) :
      Step target request board { board with work := none }
  | discard {board : Board} (jobId : JobId) (waiting : List JobId)
      (first : board.pendingResourceJobs = jobId :: waiting)
      (stale : board.pendingResource.get jobId = none ∨
        ∀ entry, board.jobs.get jobId = some entry → entry.status ≠ .pending) :
      Step target request board { board with
        pendingResourceJobs := waiting
        pendingResource := board.pendingResource.erase jobId }
  | rotate {board : Board} (jobId : JobId) (waiting : List JobId)
      (first : board.pendingResourceJobs = jobId :: waiting) :
      Step target request board { board with pendingResourceJobs := waiting ++ [jobId] }
  | resume {board : Board} (jobId : JobId) (waiting : List JobId) (entry : JobEntry)
      (pending : PendingResourceAdmission) (first : board.pendingResourceJobs = jobId :: waiting)
      (found : board.jobs.get jobId = some entry) (status : entry.status = .pending)
      (parked : board.pendingResource.get jobId = some pending) :
      Step target request board (board.resume jobId waiting entry pending.baseScope)

abbrev Board.Moves (target : Targets) : Board → Board → Prop :=
  Relation.ReflTransGen (Board.Move target)

abbrev Board.Steps (target : Targets) (request : Option SpawnChainRequest) :
    Board → Board → Prop :=
  Relation.ReflTransGen (Board.Step target request)

/-- A request is taken up, and what it has made is set to work. -/
def Board.Spawn (target : Targets) (asked : SpawnChainRequest) (before after : Board) : Prop :=
  ∃ middle, Board.Step target (some asked) before middle ∧ Board.Steps target none middle after

end CueShell
