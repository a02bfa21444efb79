import CueShell.Proofs.SchedulerSteps
import CueShell.Model.Scheduler.Launch

/-! # Leaves of scope-enabled chains

A leaf that is a scope transform is completed by applying it, and no process is started for it. The
source tests whether scopes are enabled where it should test whether there is a transform, so that an
ordinary leaf of a scope-enabled chain is taken for a transform too.
-/

namespace CueShell

variable {env : Env} {state after : SchedulerState} {jobId : JobId}

section Launches

def SchedulerEvent.isLaunch : SchedulerEvent → Bool
  | .launched _ _ _ _ _ => true
  | _ => false

/-- The processes that have been started. -/
def SchedulerState.launches (state : SchedulerState) : List SchedulerEvent :=
  state.log.filter SchedulerEvent.isLaunch

/-- The jobs and the processes are left alone. -/
structure Aside (before after : SchedulerState) : Prop where
  jobs : after.jobs = before.jobs
  launches : after.launches = before.launches

theorem Aside.refl (state : SchedulerState) : Aside state state := ⟨rfl, rfl⟩

theorem Aside.trans {middle last : SchedulerState} (first : Aside state middle)
    (second : Aside middle last) : Aside state last :=
  ⟨second.jobs.trans first.jobs, second.launches.trans first.launches⟩

theorem launches_append (state : SchedulerState) {events : List SchedulerEvent}
    (quiet : ∀ event ∈ events, event.isLaunch = false) :
    { state with log := state.log ++ events }.launches = state.launches := by
  have none : events.filter SchedulerEvent.isLaunch = [] :=
    List.filter_eq_nil_iff.mpr fun event member => by simp [quiet event member]
  rw [SchedulerState.launches, List.filter_append, none, List.append_nil]
  rfl

theorem persistJobEntry_aside (status : JobStatus) :
    Ensures (persistJobEntry env jobId status) state fun _ after => Aside state after := by
  unfold persistJobEntry
  apply Ensures.bind (ask_spec _)
  rintro answer middle ⟨-, rfl⟩
  cases answer <;> exact ⟨rfl, rfl⟩

theorem notifyJobWaiters_aside :
    Ensures (notifyJobWaiters jobId) state fun _ after => Aside state after := by
  unfold notifyJobWaiters
  apply Ensures.get
  cases state.jobWaiters.get jobId with
  | none => exact .refl _
  | some waiters =>
    apply Ensures.modify
    cases state.jobs.get jobId with
    | none => exact ⟨rfl, rfl⟩
    | some entry =>
      refine @Ensures.forM _ _ _ _ _ (Aside state) ⟨rfl, rfl⟩ fun waiter _ before aside => ?_
      refine aside.trans ⟨rfl, launches_append before ?_⟩
      simp [SchedulerEvent.isLaunch]

theorem endLeaf_aside (update : TerminalStateUpdate) (endScope : Option ScopeHash) :
    Ensures (endLeaf jobId update endScope) state fun _ after => Aside state after := by
  unfold endLeaf
  apply Ensures.get
  cases state.jobToChain.get jobId with
  | none => exact .refl _
  | some place =>
    apply Ensures.modify
    split
    · unfold chainAdvanceAfter
      apply Ensures.get
      split
      · exact ⟨rfl, rfl⟩
      · refine ⟨rfl, launches_append _ ?_⟩
        simp [SchedulerEvent.isLaunch]
    · exact ⟨rfl, rfl⟩

/-- The first end of a job is stored, and no process is started. -/
theorem setJobTerminalState_ends {entry : JobEntry} {update : TerminalStateUpdate}
    (found : state.jobs.get jobId = some entry) (unfinished : entry.status.isTerminal = false) :
    Ensures (setJobTerminalState env jobId update) state fun _ after =>
      after.launches = state.launches ∧ after.jobs.get jobId = some { entry with
        status := update.status, exitCode := some update.exitCode
        endScope := update.endScope.or entry.startScope } := by
  unfold setJobTerminalState
  apply Ensures.get
  rw [found]
  dsimp only
  rw [if_neg (by simp [unfinished])]
  unfold endJob
  apply Ensures.modify
  refine Ensures.bind (persistJobEntry_aside update.status) fun persistError stored persisted => ?_
  have passes (settled : SchedulerState) (released : Aside stored settled) :
      Ensures (do
        notifyJobWaiters jobId
        let chainAdvance ← endLeaf jobId update (update.endScope.or entry.startScope)
        return (⟨chainAdvance, persistError⟩ : TerminalStateOutcome)) settled fun _ after =>
        after.launches = state.launches ∧ after.jobs.get jobId = some { entry with
          status := update.status, exitCode := some update.exitCode
          endScope := update.endScope.or entry.startScope } := by
    refine Ensures.bind notifyJobWaiters_aside fun _ notified answered => ?_
    refine Ensures.bind (endLeaf_aside update _) fun advance final passed => ?_
    have whole := ((persisted.trans released).trans answered).trans passed
    refine Ensures.pure ⟨whole.launches, ?_⟩
    rw [whole.jobs]
    exact (Table.get_insert ..).trans (if_pos rfl)
  dsimp only
  split
  · apply Ensures.modify
    apply Ensures.modify
    exact passes _ ⟨rfl, rfl⟩
  · exact passes _ (.refl _)

end Launches

section Dispatch

variable {request : SpawnChainRequest} {context : ChainContext} {leaf : FlatLeaf} {index : ℕ}
  {startScope : ScopeHash}

/-- The words of the leaf give a scope transform. -/
def FlatLeaf.IsTransform (leaf : FlatLeaf) : Prop :=
  ∃ transform, scopeTransformFromCommand leaf.command = .ok (some transform)

/-- The job has ended as applying its scope transform ended, and no process has been started. -/
structure CompletedBy (answer : Except String ScopeHash) (startScope : ScopeHash) (jobId : JobId)
    (before after : SchedulerState) : Prop where
  launches : after.launches = before.launches
  ended : ∃ entry, after.jobs.get jobId = some entry ∧ match answer with
    | .ok endScope => entry.status = .done ∧ entry.exitCode = some 0 ∧ entry.endScope = some endScope
    | .error _ => entry.status = .failed ∧ entry.exitCode = some exitCodeUnavailable ∧
        entry.endScope = some startScope

def SpawnChainRequest.withoutScope (request : SpawnChainRequest) : SpawnChainRequest :=
  { request with options := { request.options with scopeEnabled := false } }

def ChainContext.withoutScope (context : ChainContext) : ChainContext :=
  { context with options := { context.options with scopeEnabled := false } }

/-- What is to be done with a leaf of a scope-enabled request: where it is the only one, by
`spawnChain`, and otherwise when it is entered as ready. -/
structure DispatchedByWords (request : SpawnChainRequest) (leaf : FlatLeaf) : Prop where
  transformAlone : flattenLeaves request.chain = [leaf] → leaf.IsTransform → ∀ env state,
    Ensures (spawnChain env request) state fun _ after =>
      CompletedBy (env.applyScopeTransform state.question request.scopeHash leaf.command)
        request.scopeHash state.nextJob state after
  ordinaryAlone : flattenLeaves request.chain = [leaf] → ¬ leaf.IsTransform → ∀ env,
    spawnChain env request = spawnChain env request.withoutScope
  transformReady : flattenLeaves request.chain ≠ [leaf] → leaf.IsTransform → ∀ env context index startScope jobId state,
    context.options = request.options → context.leaves = flattenLeaves request.chain →
    Ensures (do
      enterLeaf context leaf index startScope jobId
      runLeaf env context leaf index startScope jobId) state fun result after =>
        result.1.isSome = true ∧ result.2 = none ∧
        CompletedBy (env.applyScopeTransform state.question startScope leaf.command)
          startScope jobId state after
  ordinaryReady : flattenLeaves request.chain ≠ [leaf] → ¬ leaf.IsTransform → ∀ env context index startScope jobId,
    context.options = request.options → context.leaves = flattenLeaves request.chain →
    runLeaf env context leaf index startScope jobId =
      runLeaf env context.withoutScope leaf index startScope jobId

/-- How a job ends by an answer of applying its transform. -/
def transformUpdate (startScope : ScopeHash) : Except String ScopeHash → TerminalStateUpdate
  | .ok endScope => ⟨.done, 0, some endScope, true⟩
  | .error _ => ⟨.failed, exitCodeUnavailable, some startScope, true⟩

theorem transformUpdate_completes {middle : SchedulerState} {entry : JobEntry}
    (found : middle.jobs.get jobId = some entry) (unfinished : entry.status.isTerminal = false)
    (launches : middle.launches = state.launches) (answer : Except String ScopeHash) :
    Ensures (setJobTerminalState env jobId (transformUpdate startScope answer)) middle fun _ after =>
      CompletedBy answer startScope jobId state after := by
  refine (setJobTerminalState_ends found unfinished).mono ?_
  rintro outcome last ⟨kept, ended⟩
  refine ⟨kept.trans launches, _, ended, ?_⟩
  cases answer <;> exact ⟨rfl, rfl, rfl⟩

theorem enterLeaf_spec (context : ChainContext) (leaf : FlatLeaf) (index : ℕ) (startScope : ScopeHash) :
    Ensures (enterLeaf context leaf index startScope jobId) state fun _ after =>
      after.launches = state.launches ∧ after.question = state.question ∧
      ∃ entry, after.jobs.get jobId = some entry ∧ entry.status = .running := by
  refine ⟨rfl, rfl, _, (Table.get_insert ..).trans (if_pos rfl), rfl⟩

/-- A leaf of a scope-enabled chain is completed by applying its words as a transform, if they are none or
a valid one. -/
theorem runLeaf_enabled {found : Option ScopeTransform} (enabled : context.options.scopeEnabled = true)
    (valid : scopeTransformFromCommand leaf.command = .ok found) :
    Ensures (do
      enterLeaf context leaf index startScope jobId
      runLeaf env context leaf index startScope jobId) state fun result after =>
        result.1.isSome = true ∧ result.2 = none ∧
        CompletedBy (env.applyScopeTransform state.question startScope leaf.command)
          startScope jobId state after := by
  refine Ensures.bind (enterLeaf_spec context leaf index startScope) ?_
  rintro - entered ⟨launches, question, entry, there, isRunning⟩
  rw [runLeaf, if_pos enabled, valid]
  dsimp only
  apply Ensures.bind (ask_spec _)
  rintro answer middle ⟨isAnswer, rfl⟩
  rw [← question, ← isAnswer]
  have ends := @transformUpdate_completes env state jobId startScope
    { entered with question := entered.question + 1 } entry there (by rw [isRunning]; rfl) launches answer
  cases answer with
  | ok endScope => exact Ensures.bind ends fun outcome last completed => ⟨rfl, rfl, completed⟩
  | error error => exact Ensures.bind ends fun outcome last completed => ⟨rfl, rfl, completed⟩

/-- No leaf of a scope-enabled chain starts a process. -/
theorem runLeaf_launches (enabled : context.options.scopeEnabled = true) :
    Ensures (do
      enterLeaf context leaf index startScope jobId
      runLeaf env context leaf index startScope jobId) state fun _ after =>
        after.launches = state.launches := by
  cases valid : scopeTransformFromCommand leaf.command with
  | ok found => exact (runLeaf_enabled enabled valid).mono fun _ _ completed => completed.2.2.launches
  | error message =>
    refine Ensures.bind (enterLeaf_spec context leaf index startScope) ?_
    rintro - entered ⟨launches, -, entry, there, isRunning⟩
    rw [runLeaf, if_pos enabled, valid]
    exact Ensures.bind (setJobTerminalState_ends there (by rw [isRunning]; rfl))
      fun outcome last ended => ended.1.trans launches

theorem enterJob_spec (request : SpawnChainRequest) (leaf : FlatLeaf) (startScope : ScopeHash)
    (reason : Option String) (status : JobStatus) :
    Ensures (enterJob request leaf jobId status startScope reason) state fun _ after =>
      after.launches = state.launches ∧ after.question = state.question ∧
      ∃ entry, after.jobs.get jobId = some entry ∧ entry.status = status :=
  ⟨rfl, rfl, _, (Table.get_insert ..).trans (if_pos rfl), rfl⟩

theorem spawnScopeJob_completes {found : Option ScopeTransform}
    (valid : scopeTransformFromCommand leaf.command = .ok found) :
    Ensures (spawnScopeJob env request leaf jobId) state fun _ after =>
      CompletedBy (env.applyScopeTransform state.question request.scopeHash leaf.command)
        request.scopeHash jobId state after := by
  unfold spawnScopeJob
  refine Ensures.bind (enterJob_spec request leaf request.scopeHash none .running) ?_
  rintro - entered ⟨launches, question, entry, there, isRunning⟩
  rw [valid]
  dsimp only
  apply Ensures.bind (ask_spec _)
  rintro answer middle ⟨isAnswer, rfl⟩
  rw [← question, ← isAnswer]
  have ends := @transformUpdate_completes env state jobId request.scopeHash
    { entered with question := entered.question + 1 } entry there (by rw [isRunning]; rfl) launches answer
  cases answer with
  | ok endScope =>
    refine Ensures.bind ends fun terminal last completed => ?_
    cases terminal.persistError <;> exact completed
  | error error =>
    refine Ensures.bind ends fun terminal last completed => ?_
    cases terminal.persistError <;> exact completed

theorem spawnScopeJob_launches :
    Ensures (spawnScopeJob env request leaf jobId) state fun _ after => after.launches = state.launches := by
  cases valid : scopeTransformFromCommand leaf.command with
  | ok found => exact (spawnScopeJob_completes valid).mono fun _ _ completed => completed.launches
  | error message =>
    unfold spawnScopeJob
    refine Ensures.bind (enterJob_spec request leaf request.scopeHash none .running) ?_
    rintro - entered ⟨launches, -, entry, there, isRunning⟩
    rw [valid]
    refine Ensures.bind (setJobTerminalState_ends there (by rw [isRunning]; rfl)) ?_
    rintro outcome last ⟨kept, -⟩
    cases outcome.persistError <;> exact kept.trans launches

/-- The state in which the job of a request is entered. -/
def SchedulerState.allotted (state : SchedulerState) (request : SpawnChainRequest) : SchedulerState :=
  { state with
    log := state.log ++ [.spawned request.chain request.scopeHash], nextJob := state.nextJob + 1 }

theorem allotted_launches (state : SchedulerState) (request : SpawnChainRequest) :
    (state.allotted request).launches = state.launches := by
  refine launches_append { state with nextJob := state.nextJob + 1 } ?_
  simp [SchedulerEvent.isLaunch]

/-- A request for a single job. -/
theorem spawnChain_alone (alone : flattenLeaves request.chain = [leaf])
    (accepted : request.options.scopeEnabled = true → validateScopeTransformSupport request.chain = .ok ())
    (env : Env) (state : SchedulerState) :
    spawnChain env request state =
      (if request.options.scopeEnabled then spawnScopeJob env request leaf state.nextJob
        else spawnProcess env request leaf state.nextJob) (state.allotted request) := by
  have passes : (if request.options.scopeEnabled then validateScopeTransformSupport request.chain
      else .ok ()) = .ok () := by
    split
    next enabled => exact accepted enabled
    next => rfl
  unfold spawnChain
  rw [passes, alone]
  rfl

/-- Where everything succeeds, every need is granted without a variable. -/
theorem admitResourceScope_calm (base : ScopeHash) (needs : Need) :
    Ensures (admitResourceScope .calm jobId base needs) state fun result after =>
      result = .ok (.granted base) ∧ after.launches = state.launches := by
  unfold admitResourceScope
  split
  · exact ⟨rfl, rfl⟩
  · exact ⟨rfl, rfl⟩

theorem spawnProcessJob_calm (plan : JobPlan) (scope : ScopeHash) (options : ProcessJobOptions) :
    Ensures (spawnProcessJob .calm jobId plan scope options) state fun result after =>
      result = .ok () ∧ after.launches ≠ state.launches := by
  refine ⟨rfl, ?_⟩
  have log : ((spawnProcessJob .calm jobId plan scope options) state).2.log =
      state.log ++ [.launched jobId plan scope options ((state.reservations.get jobId).getD [])] := rfl
  rw [SchedulerState.launches, SchedulerState.launches, log, List.filter_append]
  simp [SchedulerEvent.isLaunch]

/-- Where everything succeeds, a job without scope transforms starts a process. -/
theorem spawnProcess_launches :
    Ensures (spawnProcess .calm request leaf jobId) state fun _ after =>
      after.launches ≠ state.launches := by
  unfold spawnProcess
  dsimp only
  refine Ensures.bind (admitResourceScope_calm request.scopeHash _) ?_
  rintro - admitted ⟨rfl, kept⟩
  dsimp only
  refine Ensures.bind (enterJob_spec request leaf request.scopeHash none .running) ?_
  rintro - entered ⟨launches, -⟩
  refine Ensures.bind (spawnProcessJob_calm leaf.plan request.scopeHash _) ?_
  rintro - spawned ⟨rfl, launched⟩
  exact fun same => launched ((same.trans kept.symm).trans launches.symm)

theorem launchLeaf_launches :
    Ensures (launchLeaf .calm context leaf index startScope jobId) state fun _ after =>
      after.launches ≠ state.launches := by
  unfold launchLeaf
  dsimp only
  refine Ensures.bind (admitResourceScope_calm startScope _) ?_
  rintro - admitted ⟨rfl, kept⟩
  apply Ensures.modify
  refine Ensures.bind (spawnProcessJob_calm leaf.plan startScope _) ?_
  rintro - spawned ⟨rfl, launched⟩
  exact fun same => launched (same.trans kept.symm)

/-- A single job of a scope-enabled request never runs as it would without scopes. -/
theorem spawnChain_ne_withoutScope (enabled : request.options.scopeEnabled = true)
    (accepted : validateScopeTransformSupport request.chain = .ok ())
    (alone : flattenLeaves request.chain = [leaf]) :
    spawnChain .calm request ≠ spawnChain .calm request.withoutScope := by
  intro same
  have first := spawnChain_alone alone (fun _ => accepted) .calm .new
  have second := @spawnChain_alone request.withoutScope leaf alone
    (fun isEnabled => absurd isEnabled (by simp [SpawnChainRequest.withoutScope])) .calm .new
  rw [if_pos enabled] at first
  rw [if_neg (by simp [SpawnChainRequest.withoutScope])] at second
  have none := @spawnScopeJob_launches .calm (SchedulerState.new.allotted request) SchedulerState.new.nextJob
    request leaf
  have some := @spawnProcess_launches (SchedulerState.new.allotted request.withoutScope)
    SchedulerState.new.nextJob request.withoutScope leaf
  rw [Ensures, ← first, allotted_launches] at none
  rw [Ensures, ← second, allotted_launches, ← same] at some
  exact some none

theorem runLeaf_ne_withoutScope (enabled : context.options.scopeEnabled = true) :
    runLeaf .calm context leaf index startScope jobId ≠
      runLeaf .calm context.withoutScope leaf index startScope jobId := by
  intro same
  have none := @runLeaf_launches .calm .new jobId context leaf index startScope enabled
  rw [same] at none
  have some : Ensures (do
      enterLeaf context leaf index startScope jobId
      runLeaf .calm context.withoutScope leaf index startScope jobId) .new fun _ after =>
        after.launches ≠ SchedulerState.new.launches := by
    refine Ensures.bind (enterLeaf_spec context leaf index startScope) ?_
    rintro - entered ⟨launches, -⟩
    rw [runLeaf, if_neg (by simp [ChainContext.withoutScope]), ← launches]
    exact launchLeaf_launches
  exact some none

/-- A leaf of an accepted scope-enabled request is dispatched by its words exactly if they give a
transform. -/
theorem dispatchedByWords_iff (request : SpawnChainRequest) (leaf : FlatLeaf)
    (enabled : request.options.scopeEnabled = true)
    (accepted : validateScopeTransformSupport request.chain = .ok ()) :
    DispatchedByWords request leaf ↔ leaf.IsTransform := by
  constructor
  · intro dispatched
    by_contra ordinary
    by_cases alone : flattenLeaves request.chain = [leaf]
    · exact absurd (dispatched.ordinaryAlone alone ordinary .calm)
        (spawnChain_ne_withoutScope enabled accepted alone)
    · let context : ChainContext := ⟨0, flattenLeaves request.chain, request.options, request.sessionId⟩
      exact absurd (dispatched.ordinaryReady alone ordinary .calm context 0 request.scopeHash 0 rfl rfl)
        (runLeaf_ne_withoutScope enabled)
  · rintro ⟨transform, valid⟩
    have isTransform : leaf.IsTransform := ⟨transform, valid⟩
    exact {
      transformAlone := fun alone _ env state => by
        have runs := spawnChain_alone alone (fun _ => accepted) env state
        rw [if_pos enabled] at runs
        have completes := @spawnScopeJob_completes env (state.allotted request) state.nextJob request leaf
          (some transform) valid
        rw [Ensures, runs]
        exact ⟨completes.launches.trans (allotted_launches state request), completes.ended⟩
      ordinaryAlone := fun _ ordinary => absurd isTransform ordinary
      transformReady := fun _ _ env context index startScope jobId state options _ =>
        runLeaf_enabled (by rw [options, enabled]) valid
      ordinaryReady := fun _ ordinary => absurd isTransform ordinary }

/-- A request for a chain, with nothing else asked for. -/
def plainRequest (chain : ChainNode) : SpawnChainRequest where
  chain := chain
  scopeHash := ⟨Vector.replicate 32 0⟩
  options := ⟨⟨none, {}, false, false, none⟩, true⟩
  warnings := []
  retainCompletedChain := false
  sessionId := none

/-- `cd /tmp -> ls` -/
def enterAndList : ChainNode :=
  .serial (.leaf (.simple ["cd", "/tmp"])) .andThen (.leaf (.simple ["ls"]))

theorem dispatchedByWords_cd :
    validateScopeTransformSupport enterAndList = .ok () ∧
    DispatchedByWords (plainRequest enterAndList) ⟨0, .simple ["cd", "/tmp"], "cd /tmp"⟩ :=
  ⟨rfl, (dispatchedByWords_iff (plainRequest enterAndList) _ rfl rfl).mpr ⟨.cd "/tmp", rfl⟩⟩

/-- The second leaf starts no process: `ls` is applied as a scope transform. -/
theorem ls_not_dispatchedByWords :
    validateScopeTransformSupport enterAndList = .ok () ∧
    (flattenLeaves enterAndList)[1]? = some ⟨1, .simple ["ls"], "ls"⟩ ∧
    scopeTransformFromCommand ["ls"] = .ok none ∧
    ¬ DispatchedByWords (plainRequest enterAndList) ⟨1, .simple ["ls"], "ls"⟩ := by
  refine ⟨rfl, rfl, rfl, fun dispatched => ?_⟩
  have several : flattenLeaves (plainRequest enterAndList).chain ≠ [⟨1, .simple ["ls"], "ls"⟩] := by decide
  have ordinary : ¬ FlatLeaf.IsTransform ⟨1, .simple ["ls"], "ls"⟩ := by
    rintro ⟨transform, valid⟩
    cases valid
  let context : ChainContext :=
    ⟨1, flattenLeaves enterAndList, (plainRequest enterAndList).options, none⟩
  exact absurd (dispatched.ordinaryReady several ordinary .calm context 1 ⟨Vector.replicate 32 0⟩ 2 rfl rfl)
    (runLeaf_ne_withoutScope rfl)

end Dispatch

end CueShell
