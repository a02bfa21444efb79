import CueShell.Proofs.SchedulerSteps

/-! # Launching and ending work are sequences of steps

A chain that is spawned becomes a job or an active chain. A job that had to wait for resources is
admitted, queued again or ended, and the end of a job is followed by what it asks of its chain.
-/

namespace CueShell

open Relation (ReflTransGen)

variable {env : Env} {state : SchedulerState} (running : List RunningScript)
variable (target : Targets) (request : Option SpawnChainRequest)

section Live

/-- Some leaf of a chain with the given node runs. -/
def SchedulerState.Runs (state : SchedulerState) (chainId : ChainId) (node : ChainNode) : Prop :=
  ∃ chain index, state.chains.get chainId = some chain ∧ chain.node = node ∧
    index < node.leafCount ∧ chain.leafStatus index = some .running

variable {context : ChainContext} {leaf : FlatLeaf} {index : ℕ} {startScope : ScopeHash}
variable {jobId : JobId} {queue : List (ℕ × ScopeHash)} {node : ChainNode}

/-- A leaf that needs no resources runs, unless its process could not be spawned. -/
theorem launchLeaf_runs (free : context.options.process.needs = [])
    (runs : state.Runs context.chainId node) :
    Ensures (launchLeaf env context leaf index startScope jobId) state fun result after =>
      result.1 = none ∧ after.Runs context.chainId node ∨ result.2.isSome := by
  have admitted : admitResourceScope env jobId startScope context.options.process.needs =
      pure (.ok (.granted startScope)) := by simp [admitResourceScope, free]
  unfold launchLeaf
  dsimp only
  rw [admitted, pure_bind]
  apply Ensures.modify
  apply Ensures.bind (spawnProcessJob_spec _ _ _)
  intro answer spawned reached
  cases answer with
  | ok =>
    subst reached
    exact .inl ⟨rfl, runs⟩
  | error error => exact .inr rfl

theorem applyTerminalChainAdvance_error (terminal : TerminalStateOutcome)
    (outcome : ChainAdvanceOutcome) :
    Ensures (applyTerminalChainAdvance env context.chainId terminal outcome queue) state
      fun result _ => result.1.spawnError = outcome.spawnError := by
  unfold applyTerminalChainAdvance
  cases terminal.chainAdvance <;> rfl

/-- A leaf is started, or the reason why it could not be spawned is kept. -/
theorem startLeaf_runs {chain : ChainState} (outcome : ChainAdvanceOutcome)
    (free : context.options.process.needs = []) (process : context.options.scopeEnabled = false)
    (active : state.chains.get context.chainId = some chain) (same : chain.node = node)
    (inside : index < node.leafCount) :
    Ensures (startLeaf env context leaf index startScope jobId outcome queue) state
      fun result after => result.2 = queue ∧ after.Runs context.chainId node ∨ result.1.spawnError.isSome := by
  have runs : (enterLeaf context leaf index startScope jobId state).2.Runs context.chainId node := by
    refine ⟨chain.enter index jobId .running, index, ?_, same, inside, ?_⟩
    · exact (Table.get_modify ..).trans (by simp [active, ChainState.enter])
    · simp [ChainState.enter]
  have launched : runLeaf env context leaf index startScope jobId =
      launchLeaf env context leaf index startScope jobId := by simp [runLeaf, process]
  unfold startLeaf
  apply Ensures.modify
  rw [launched]
  apply Ensures.bind (launchLeaf_runs free runs)
  rintro ⟨terminal, spawnError⟩ after reached
  cases terminal with
  | none =>
    rcases reached with ⟨-, running⟩ | failed
    · exact .inl ⟨rfl, running⟩
    · refine .inr ?_
      change (outcome.spawnError.or spawnError).isSome
      simpa using Or.inr failed
  | some terminal =>
    rcases reached with ⟨⟨⟩, -⟩ | failed
    apply (applyTerminalChainAdvance_error terminal _).mono
    intro result later kept
    refine .inr ?_
    rw [kept]
    simpa using Or.inr failed

theorem startLeaf_error (outcome : ChainAdvanceOutcome) (failed : outcome.spawnError.isSome) :
    Ensures (startLeaf env context leaf index startScope jobId outcome queue) state
      fun result _ => result.1.spawnError.isSome := by
  unfold startLeaf
  apply Ensures.modify
  refine Ensures.bind (show Ensures _ _ fun _ _ => True from trivial) ?_
  rintro ⟨terminal, spawnError⟩ after -
  cases terminal with
  | none =>
    change (outcome.spawnError.or spawnError).isSome
    simpa using Or.inl failed
  | some terminal =>
    apply (applyTerminalChainAdvance_error terminal _).mono
    intro result later kept
    rw [kept]
    simpa using Or.inl failed

/-- The first error of a queue is kept. -/
theorem startQueue_error (rounds captureFirst : ℕ) (outcome : ChainAdvanceOutcome)
    (failed : outcome.spawnError.isSome) :
    Ensures (startQueue env context captureFirst rounds outcome queue) state
      fun result _ => result.spawnError.isSome := by
  have captured (jobId : JobId) : (outcome.capture captureFirst jobId).spawnError.isSome := by
    unfold ChainAdvanceOutcome.capture
    split <;> exact failed
  induction rounds generalizing state outcome queue with
  | zero => exact failed
  | succ rounds ih =>
    cases queue with
    | nil => exact failed
    | cons first queue =>
      unfold startQueue
      apply Ensures.bind allocJob_spec
      rintro jobId after -
      apply Ensures.get
      split
      · apply Ensures.modify
        refine Ensures.bind (startLeaf_error _ (captured jobId)) ?_
        rintro ⟨next, later⟩ middle still
        refine ih next still ?_
        intro other
        unfold ChainAdvanceOutcome.capture
        split <;> exact still
      · exact captured jobId

/-- A queue whose leaves need no resources leaves a leaf running, or an error. -/
theorem startQueue_runs {rounds : ℕ} (captureFirst : ℕ) (outcome : ChainAdvanceOutcome)
    (free : context.options.process.needs = []) (process : context.options.scopeEnabled = false)
    (leaves : context.leaves = flattenLeaves node) (enough : queue.length < rounds)
    (inside : ∀ index ∈ queue.map Prod.fst, index < node.leafCount)
    (active : (state.chains.get context.chainId).map ChainState.node = some node)
    (runs : state.Runs context.chainId node ∨ queue ≠ []) :
    Ensures (startQueue env context captureFirst rounds outcome queue) state fun result after =>
      after.Runs context.chainId node ∨ result.spawnError.isSome := by
  induction rounds generalizing state outcome queue with
  | zero => exact absurd enough (Nat.not_lt_zero _)
  | succ rounds ih =>
    cases queue with
    | nil => exact .inl (runs.resolve_right (· rfl))
    | cons first queue =>
      obtain ⟨index, startScope⟩ := first
      obtain ⟨chain, found, same⟩ := Option.map_eq_some_iff.mp active
      have leafInside : index < node.leafCount := inside index (by simp)
      obtain ⟨leaf, known⟩ : ∃ leaf, context.leaves[index]? = some leaf := by
        rw [← flattenLeaves_length, ← leaves] at leafInside
        exact ⟨_, List.getElem?_eq_getElem leafInside⟩
      unfold startQueue
      apply Ensures.bind allocJob_spec
      rintro jobId _ ⟨-, rfl⟩
      apply Ensures.get
      rw [found, known]
      apply Ensures.modify
      refine Ensures.bind (startLeaf_runs _ free process found same leafInside) ?_
      rintro ⟨next, later⟩ middle reached
      rcases reached with ⟨rfl, running⟩ | failed
      · refine ih next (Nat.lt_of_succ_lt_succ enough) ?_ ?_ (.inl running)
        · exact fun other member => inside other (List.mem_cons_of_mem _ member)
        · obtain ⟨still, _, stillActive, stillNode, -⟩ := running
          simp [stillActive, stillNode]
      · exact (startQueue_error rounds captureFirst next failed).mono fun _ _ => .inr

/-- The first leaves of a chain. -/
theorem initially_startable (node : ChainNode) (scope : ScopeHash) :
    Startable node.leafCount ((initiallyReady node).map (·, scope)) := by
  have indices : ((initiallyReady node).map (·, scope)).map Prod.fst = node.entries 0 := by
    rw [List.map_map, initiallyReady_eq]
    exact List.map_id _
  constructor
  · rw [indices]
    exact entries_nodup node 0
  · intro index member
    rw [indices] at member
    exact covers_root.mp (entries_covered member)

theorem Startable.length_le {leafCount : ℕ} (startable : Startable leafCount queue) :
    queue.length ≤ leafCount := by
  have inside : queue.map Prod.fst ⊆ List.range leafCount := fun index member =>
    List.mem_range.mpr (startable.inside index member)
  have short := (List.subperm_of_subset startable.distinct inside).length_le
  simpa using short

/-- A chain with a running leaf is not closed. -/
theorem processChainAdvance_active (asked : ChainAdvanceRequest) {chain : ChainState}
    (nothing : asked.toCancel = []) (active : state.chains.get asked.chainId = some chain)
    (free : chain.process.needs = []) (process : chain.scopeEnabled = false)
    (startable : Startable chain.node.leafCount asked.newlyReady) (some_ready : asked.newlyReady ≠ []) :
    Ensures (processChainAdvance env asked) state fun outcome after =>
      (after.chains.get asked.chainId).isSome ∨ outcome.spawnError.isSome := by
  have enough : asked.newlyReady.length < queueRounds chain.node := by
    have short := startable.length_le
    have power : chain.node.leafCount < 2 ^ chain.node.leafCount := Nat.lt_two_pow_self
    unfold queueRounds
    rw [Nat.pow_succ]
    omega
  unfold processChainAdvance
  rw [nothing, cancelChainLeaves, pure_bind]
  apply Ensures.get
  rw [active]
  refine Ensures.bind (startQueue_runs asked.captureFirst _ free process rfl enough startable.inside
    (by simp [active]) (.inr some_ready)) ?_
  intro outcome after reached
  apply Ensures.get
  cases found : after.chains.get asked.chainId with
  | none =>
    rcases reached with ⟨still, _, stillActive, -⟩ | failed
    · cases found.symm.trans stillActive
    · exact .inr failed
  | some last =>
    dsimp only
    split
    · rename_i ended
      rcases reached with ⟨still, index, stillActive, node, inside, status⟩ | failed
      · cases found.symm.trans stillActive
        have terminal := (allLeavesTerminal_iff.mp ended) index (covers_root.mpr (node ▸ inside))
        simp [Statuses.Terminal, status, LeafStatus.isTerminal] at terminal
      · exact .inr failed
    · exact .inl (by simp [found, run_pure])

end Live

section Spawn

variable {asked : SpawnChainRequest} {jobId : JobId}

/-- No move forgets a job. -/
theorem Board.Move.keeps {before after : Board} (move : Board.Move target before after) :
    before.jobs.keys ⊆ after.jobs.keys := by
  cases move with
  | explain => exact Finset.subset_insert _ _
  | complete => exact Finset.subset_insert _ _
  | grant => exact Finset.subset_insert _ _
  | enterLeaf => exact Finset.subset_insert _ _
  | parkLeaf => exact Finset.subset_insert _ _
  | transform =>
    rw [Board.follow_jobs]
    exact (Finset.subset_insert _ _).trans (Finset.subset_insert _ _)
  | finish =>
    rw [Board.follow_jobs]
    exact Finset.subset_insert _ _
  | cancelLeaf => exact Finset.subset_insert _ _
  | _ => exact Finset.Subset.refl _

theorem Board.Moves.keeps {before after : Board} (moves : Board.Moves target before after) :
    before.jobs.keys ⊆ after.jobs.keys := by
  induction moves with
  | refl => exact Finset.Subset.refl _
  | tail _ move ih => exact ih.trans (move.keeps target)

theorem Board.place_finish (board : Board) (entry : JobEntry) (update : TerminalStateUpdate)
    (alone : board.place jobId = none) : (board.finish jobId entry update).place jobId = none := by
  unfold Board.place at alone ⊢
  cases located : board.jobToChain.get jobId with
  | none => simp [Board.finish, located]
  | some place =>
    obtain ⟨chainId, index⟩ := place
    simpa [Board.finish, Board.setLeaf, located, Table.get_modify] using alone

/-- A job that belongs to no active chain ends without work for one. -/
theorem setJobTerminalState_alone {update : TerminalStateUpdate} (ended : update.status.isTerminal)
    (advances : update.advanceChain = true)
    (reason : (state.board none running).MayEnd target jobId)
    (alone : (state.board none running).place jobId = none)
    (proper : update.status = .done ↔ update.exitCode = 0) :
    Ensures (setJobTerminalState env jobId update) state fun outcome after =>
      outcome.chainAdvance = none ∧ after.jobToChain = state.jobToChain ∧
        Board.Moves target (state.board none running) (after.board none running) := by
  have path : Ensures (setJobTerminalState env jobId update) state fun outcome after =>
      Board.Moves target (state.board none running)
        (after.board (ChainAdvance.due none outcome.chainAdvance) running) :=
    setJobTerminalState_moves running target ended advances reason (by simp) proper (by simp)
  have kept : Ensures (setJobTerminalState env jobId update) state fun outcome after =>
      outcome.chainAdvance = none ∧ after.jobToChain = state.jobToChain := by
    unfold setJobTerminalState
    apply Ensures.get
    split
    · exact ⟨rfl, rfl⟩
    · split
      · unfold completeEndScope
        split
        · apply Ensures.modify
          apply Ensures.bind (persistJobEntry_spec _)
          rintro error after (rfl | rfl) <;> exact ⟨rfl, rfl⟩
        · exact ⟨rfl, rfl⟩
      · rename_i entry found unfinished
        apply (endJob_eq running none ended).mono
        rintro outcome after ⟨history, -, reached⟩
        have still := Board.place_finish
          { state.board none running with question := state.question + 1 } entry update alone
        simp only [Board.react, advances, if_true, Board.follow, still] at reached
        refine ⟨?_, congrArg (fun board : Board => board.jobToChain) reached⟩
        have shown := congrArg Board.work reached
        cases due : outcome.chainAdvance with
        | none => rfl
        | some advance =>
          rw [due] at shown
          cases shown
  apply (kept.and path).mono
  rintro outcome after ⟨⟨nothing, same⟩, path⟩
  rw [nothing] at path
  exact ⟨nothing, same, path⟩

/-- The state once a chain has been handed over for execution. -/
def SchedulerState.handed (state : SchedulerState) (asked : SpawnChainRequest) : SchedulerState :=
  { state with log := state.log ++ [.spawned asked.chain asked.scopeHash] }

/-- The state once a job that belongs to no chain has been entered. -/
def SchedulerState.withJob (state : SchedulerState) (asked : SpawnChainRequest) (entry : JobEntry) :
    SchedulerState :=
  { state.handed asked with
    nextJob := state.nextJob + 1
    jobs := state.jobs.insert state.nextJob entry }

variable {target} in
theorem Board.Spawn.trans {before middle after : Board} (spawn : Board.Spawn target asked before middle)
    (rest : Board.Steps target none middle after) : Board.Spawn target asked before after := by
  obtain ⟨first, taken, steps⟩ := spawn
  exact ⟨first, taken, steps.trans rest⟩

/-- What nobody asks for may happen on any request. -/
theorem Board.Step.on_request {before after : Board} (step : Board.Step target none before after) :
    Board.Step target request before after := by
  cases step with
  | move change => exact .move change
  | spawn asked due => cases due
  | enterJob asked entry due => cases due
  | parkJob asked entry pending due => cases due
  | activate asked due => cases due
  | begin chainId chain active rest => exact .begin chainId chain active rest
  | close chain completed due active allowed ended kept =>
    exact .close chain completed due active allowed ended kept
  | rest due unfinished => exact .rest due unfinished
  | fault jobId => exact .fault jobId
  | drop jobId fault => exact .drop jobId fault
  | lost due gone => exact .lost due gone
  | discard jobId waiting first stale => exact .discard jobId waiting first stale
  | rotate jobId waiting first => exact .rotate jobId waiting first
  | resume jobId waiting entry pending first found status parked =>
    exact .resume jobId waiting entry pending first found status parked

theorem Board.Spawn.steps {before after : Board} (spawn : Board.Spawn target asked before after) :
    Board.Steps target (some asked) before after := by
  obtain ⟨middle, taken, rest⟩ := spawn
  exact .head taken (ReflTransGen.mono (fun _ _ step => step.on_request target (some asked)) _ _ rest)

theorem SpawnChainRequest.entry_new (asked : SpawnChainRequest) (leaf : FlatLeaf) {status : JobStatus}
    (unfinished : ¬ status.isTerminal) (reason : Option String) :
    (asked.entry leaf status asked.scopeHash reason).New asked.sessionId asked.scopeHash :=
  ⟨rfl, rfl, rfl, rfl, unfinished⟩

/-- What is known once a chain has been spawned: the answer names the new job or chain. -/
structure Spawned (state : SchedulerState) (asked : SpawnChainRequest) (response : Response)
    (after : SchedulerState) : Prop where
  spawn : Board.Spawn target asked (state.board none running) (after.board none running)
  created : ∀ payload, response = .ok payload →
    (∃ scope warnings, payload = .jobCreated state.nextJob scope warnings ∧
      after.jobToChain.get state.nextJob = none ∧ state.nextJob ∈ after.jobs.keys) ∨
    ∃ jobIds info warnings, payload = .chainCreated state.nextChain jobIds info warnings ∧
      (asked.retainCompletedChain → (after.chains.get state.nextChain).isSome ∨
        (after.completedChains.get state.nextChain).isSome) ∧
      (asked.options.process.needs = [] → asked.options.scopeEnabled = false →
        (after.chains.get state.nextChain).isSome)

variable {running target}

/-- A chain that could not be spawned. -/
theorem Spawned.refused {after : SchedulerState} (code message : String)
    (path : Board.Spawn target asked (state.board none running) (after.board none running)) :
    Spawned running target state asked (errorResponse code message) after := by
  refine ⟨path, ?_⟩
  intro payload
  simp [errorResponse]

/-- A chain that became a single job. -/
theorem Spawned.single {after : SchedulerState} (scope : ScopeHash)
    (path : Board.Spawn target asked (state.board none running) (after.board none running))
    (alone : after.jobToChain.get state.nextJob = none) (present : state.nextJob ∈ after.jobs.keys) :
    Spawned running target state asked (.ok (.jobCreated state.nextJob scope asked.warnings)) after := by
  refine ⟨path, ?_⟩
  rintro payload ⟨⟩
  exact .inl ⟨scope, asked.warnings, rfl, alone, present⟩

variable (running target)

/-- A job that belongs to no chain ends. -/
theorem endAlone_spawn {board : Board} {update : TerminalStateUpdate}
    (ended : update.status.isTerminal) (advances : update.advanceChain = true)
    (proper : update.status = .done ↔ update.exitCode = 0)
    (allowed : target.jobs jobId) (alone : state.jobToChain.get jobId = none)
    (path : Board.Spawn target asked board (state.board none running)) :
    Ensures (setJobTerminalState env jobId update) state fun _ after =>
      Board.Spawn target asked board (after.board none running) ∧
        after.jobToChain.get jobId = none ∧ state.jobs.keys ⊆ after.jobs.keys := by
  have outside : (state.board none running).place jobId = none := by
    simp [Board.place, SchedulerState.board, alone]
  apply (setJobTerminalState_alone running target ended advances (.inl allowed) outside proper).mono
  rintro outcome after ⟨-, same, rest⟩
  refine ⟨path.trans (rest.steps target none), ?_, rest.keeps target⟩
  rw [same]
  exact alone

variable (leaf : FlatLeaf) (allowed : target.jobs state.nextJob)
variable (alone : state.jobToChain.get state.nextJob = none)

include allowed alone in
theorem spawnScopeJob_steps :
    Ensures (spawnScopeJob env asked leaf state.nextJob)
      { state.handed asked with nextJob := state.nextJob + 1 }
      (Spawned running target state asked) := by
  let entry := asked.entry leaf .running asked.scopeHash none
  have entered : Board.Spawn target asked (state.board none running)
      ((state.withJob asked entry).board none running) :=
    ⟨_, .enterJob asked entry rfl (asked.entry_new leaf (by simp [JobStatus.isTerminal]) none) rfl,
      .refl⟩
  unfold spawnScopeJob
  apply Ensures.modify
  split
  · refine Ensures.bind (endAlone_spawn running target rfl rfl (by simp [exitCodeUnavailable]) allowed alone entered) ?_
    rintro outcome after ⟨path, -⟩
    split <;> exact .refused _ _ path
  · apply Ensures.bind (ask_spec _)
    rintro answer middle ⟨-, rfl⟩
    have asking := entered.trans (.single (.move .ask))
    cases answer with
    | ok endScope =>
      refine Ensures.bind (endAlone_spawn running target rfl rfl (by simp) allowed alone asking) ?_
      rintro outcome after ⟨path, still, kept⟩
      dsimp only
      split
      · exact .refused _ _ path
      · exact .single _ path still (kept (Finset.mem_insert_self _ _))
    | error error =>
      refine Ensures.bind (endAlone_spawn running target rfl rfl (by simp [exitCodeUnavailable]) allowed alone asking) ?_
      rintro outcome after ⟨path, still, kept⟩
      dsimp only
      split
      · exact .refused _ _ path
      · exact .single _ path still (kept (Finset.mem_insert_self _ _))

include allowed alone in
theorem spawnProcess_steps :
    Ensures (spawnProcess env asked leaf state.nextJob)
      { state.handed asked with nextJob := state.nextJob + 1 }
      (Spawned running target state asked) := by
  unfold spawnProcess
  apply Ensures.bind (admitResourceScope_moves target state.nextJob asked.scopeHash _)
  intro result admitted admission
  obtain ⟨question, reservations, log, rfl⟩ : ∃ question reservations log, admitted =
      { state.handed asked with
        nextJob := state.nextJob + 1
        question := question, reservations := reservations, log := log } :=
    ⟨_, _, _, admission.frame⟩
  have unfinished : ¬ JobStatus.running.isTerminal := by simp [JobStatus.isTerminal]
  have entered (reason : Option String) : Board.Spawn target asked (state.board none running)
      ((state.withJob asked (asked.entry leaf .running asked.scopeHash reason)).board none running) :=
    ⟨_, .enterJob asked _ rfl (asked.entry_new leaf unfinished reason) rfl, .refl⟩
  have stored (entry : JobEntry) : (state.jobs.insert state.nextJob entry).get state.nextJob =
      some entry := (Table.get_insert ..).trans (if_pos rfl)
  cases result with
  | error message =>
    let entry := asked.entry leaf .running asked.scopeHash (some message)
    have asking := admission.moves ((state.withJob asked entry).board none running) entry ⟨rfl, rfl, rfl⟩
      (stored entry) unfinished fun _ _ => ⟨rfl, rfl⟩
    have path := (entered (some message)).trans (asking.steps target none)
    simp only [ResourceAdmission.entry, SchedulerState.board, SchedulerState.withJob,
      Table.insert_insert] at path
    apply Ensures.modify
    refine Ensures.bind (endAlone_spawn running target rfl rfl (by simp [exitCodeUnavailable]) allowed alone path) ?_
    rintro outcome after ⟨path, -⟩
    apply Ensures.pure
    unfold failedResponse
    split <;> exact .refused _ _ path
  | ok answer =>
    cases answer with
    | granted spawnScope =>
      let entry := asked.entry leaf .running asked.scopeHash none
      have asking := admission.moves ((state.withJob asked entry).board none running) entry ⟨rfl, rfl, rfl⟩
        (stored entry) unfinished fun _ _ => ⟨rfl, rfl⟩
      have path := ((entered none).trans (asking.steps target none)).trans (.single (.move .ask))
      simp only [ResourceAdmission.entry, SchedulerState.board, SchedulerState.withJob,
        Table.insert_insert] at path
      apply Ensures.modify
      apply Ensures.bind (spawnProcessJob_spec _ _ _)
      intro answer spawned reached
      cases answer with
      | ok =>
        subst reached
        apply Ensures.pure
        exact .single _ (path.trans (.single (.move (.launch state.nextJob _ leaf.plan spawnScope _
          (stored _) rfl rfl)))) alone (Finset.mem_insert_self _ _)
      | error error =>
        subst reached
        refine Ensures.bind (endAlone_spawn running target rfl rfl (by simp [exitCodeUnavailable]) allowed alone path) ?_
        rintro outcome after ⟨path, -⟩
        apply Ensures.pure
        unfold failedResponse
        split <;> exact .refused _ _ path
    | pending reason =>
      let entry := asked.entry leaf .pending asked.scopeHash (some reason)
      have fresh := asked.entry_new leaf (by simp [JobStatus.isTerminal] : ¬ JobStatus.pending.isTerminal)
        (some reason)
      let pending : PendingResourceAdmission := ⟨leaf.plan, asked.scopeHash,
        asked.options.process.processJobOptions asked.sessionId, asked.options.process.needs⟩
      have path : Board.Spawn target asked (state.board none running) _ :=
        ⟨_, .parkJob asked entry pending rfl fresh rfl rfl, .single (.move .ask)⟩
      rw [admission.pending reason rfl]
      apply Ensures.modify
      apply Ensures.modify
      apply Ensures.pure
      refine .single _ ?_ alone (Finset.mem_insert_self _ _)
      convert path using 1
      simp only [SchedulerState.board, Board.park, Board.enterJob, Board.request, SchedulerState.handed,
        Table.modify_insert]
      rfl

omit allowed alone in
theorem spawnLeaves_steps (closes : target.chains state.nextChain) :
    Ensures (spawnLeaves env asked) (state.handed asked) (Spawned running target state asked) := by
  let active : SchedulerState := { state.handed asked with
    nextChain := state.nextChain + 1
    chains := state.chains.insert state.nextChain asked.chainState }
  have activated : Board.Spawn target asked (state.board none running)
      (active.board (some ⟨state.nextChain, [],
        (initiallyReady asked.chain).map (·, asked.scopeHash)⟩) running) :=
    ⟨_, .activate asked rfl rfl, .refl⟩
  have found : active.chains.get state.nextChain = some asked.chainState :=
    (Table.get_insert ..).trans (if_pos rfl)
  have allocated : Ensures allocChain (state.handed asked) fun chainId after =>
      chainId = state.nextChain ∧ after = { state.handed asked with nextChain := state.nextChain + 1 } :=
    ⟨rfl, rfl⟩
  have ready : (initiallyReady asked.chain).map (·, asked.scopeHash) ≠ [] := by
    rw [initiallyReady_eq]
    simpa using entries_ne_nil asked.chain 0
  let start : ChainAdvanceRequest :=
    { chainId := state.nextChain
      newlyReady := (initiallyReady asked.chain).map (·, asked.scopeHash)
      toCancel := []
      captureFirst := (initiallyReady asked.chain).length
      retainCompletedChain := asked.retainCompletedChain }
  have live : Ensures (processChainAdvance env start) active fun outcome after =>
      asked.options.process.needs = [] → asked.options.scopeEnabled = false →
        (after.chains.get state.nextChain).isSome ∨ outcome.spawnError.isSome :=
    fun free process => processChainAdvance_active start rfl found free process
      (initially_startable asked.chain asked.scopeHash) ready
  unfold spawnLeaves
  apply Ensures.bind allocated
  rintro chainId after ⟨rfl, rfl⟩
  apply Ensures.modify
  refine Ensures.bind ((processChainAdvance_steps running target none start closes ?_).and
    live) ?_
  · intro chain same
    cases found.symm.trans same
    exact initially_startable asked.chain asked.scopeHash
  · rintro outcome after ⟨⟨worked, retained⟩, open_⟩
    have path := activated.trans worked
    dsimp only at retained ⊢
    split
    · exact .refused _ _ path
    · exact .refused _ _ path
    · exact .refused _ _ path
    · rename_i unfailed _
      apply Ensures.get
      split
      · exact .refused _ _ path
      · refine ⟨path, ?_⟩
        rintro payload ⟨⟩
        refine .inr ⟨_, _, _, rfl, retained (Option.isSome_of_mem found), ?_⟩
        exact fun free process => (open_ free process).resolve_right (by simp [unfailed])

include allowed alone in
theorem spawnChain_steps (closes : target.chains state.nextChain) :
    Ensures (spawnChain env asked) state (Spawned running target state asked) := by
  unfold spawnChain
  apply Ensures.modify
  split
  · exact .refused _ _ ⟨_, .spawn asked rfl, .refl⟩
  · split
    · rename_i leaf _
      apply Ensures.bind allocJob_spec
      rintro jobId after ⟨rfl, rfl⟩
      dsimp only
      split
      · exact spawnScopeJob_steps running target leaf allowed alone
      · exact spawnProcess_steps running target leaf allowed alone
    · exact spawnLeaves_steps running target closes

end Spawn


section Retry

variable {jobId : JobId}

/-- The same board, but for the place of one job in the queue. -/
structure Board.Queued (board other : Board) (jobId : JobId) : Prop where
  same : other = { board with
    pendingResourceJobs := other.pendingResourceJobs
    pendingResource := other.pendingResource }
  queue : other.pendingResourceJobs.filter (· ≠ jobId) = board.pendingResourceJobs.filter (· ≠ jobId)
  parked : other.pendingResource.erase jobId = board.pendingResource.erase jobId

theorem Board.Queued.refl (board : Board) (jobId : JobId) : board.Queued board jobId :=
  ⟨rfl, rfl, rfl⟩

/-- The end of a job takes it out of the queue wherever it stands. -/
theorem Board.Queued.finish {board other : Board} (queued : board.Queued other jobId) (question : ℕ)
    (entry : JobEntry) (update : TerminalStateUpdate) :
    Board.finish { other with question := question } jobId entry update =
      Board.finish { board with question := question } jobId entry update := by
  obtain ⟨same, queue, parked⟩ := queued
  generalize other.pendingResourceJobs = jobs, other.pendingResource = admissions at same queue parked
  subst same
  unfold Board.finish
  dsimp only
  rw [queue, parked]
  rfl

/-- A job ends that is about to be taken from the queue. -/
theorem failQueued_moves {board : Board} {entry : JobEntry} (endScope : ScopeHash)
    (queued : board.Queued (state.board none running) jobId)
    (found : state.jobs.get jobId = some entry) (unfinished : ¬ entry.status.isTerminal)
    (reason : board.MayEnd target jobId) :
    Ensures (failJob env jobId endScope) state fun outcome after =>
      Board.Moves target board (after.board (ChainAdvance.due none outcome.chainAdvance) running) := by
  have shown : board.jobs = state.jobs ∧ board.question = state.question ∧ board.work = none ∧
      board.history = state.history := by
    have same := queued.same
    refine ⟨?_, ?_, ?_, ?_⟩
    · exact (congrArg (fun board : Board => board.jobs) same).symm
    · exact (congrArg (fun board : Board => board.question) same).symm
    · exact (congrArg Board.work same).symm
    · exact (congrArg (fun board : Board => board.history) same).symm
  obtain ⟨jobs, question, rest, history⟩ := shown
  let update : TerminalStateUpdate := ⟨.failed, exitCodeUnavailable, some endScope, true⟩
  have path : Board.Moves target board (Board.follow
      (Board.finish { board with question := state.question + 1 } jobId entry update) jobId
        (entry.ended update).endScope) := by
    rw [← question]
    refine .tail (.single .ask) (.finish jobId entry update ?_ unfinished rfl reason ?_ ?_ ?_)
    · exact (congrArg (fun table => table.get jobId) jobs).trans found
    · simp [rest]
    · simp [update, exitCodeUnavailable]
    · simp [rest]
  unfold failJob setJobTerminalState
  apply Ensures.get
  rw [found]
  dsimp only
  rw [if_neg unfinished]
  apply (endJob_eq running none rfl).mono
  rintro outcome after ⟨stored, written, reached⟩
  simp only [Board.react, if_true, queued.finish] at reached
  rw [reached]
  refine path.trans (Board.store_moves target jobId (entry.ended update) ?_ rfl ?_)
  · rw [Board.follow_jobs]
    exact (Table.get_insert ..).trans (if_pos rfl)
  · rw [Board.history_follow]
    exact history ▸ written

/-- A job that had waited for resources ends although it was about to start; the work this makes is
left undone. -/
theorem failRetried_steps {before board : Board} {entry : JobEntry} (endScope : ScopeHash)
    (queued : board.Queued (state.board none running) jobId)
    (found : state.jobs.get jobId = some entry) (unfinished : ¬ entry.status.isTerminal)
    (path : Board.Steps target request before board) :
    Ensures (do
        record (.retryFailed jobId)
        let _ ← failJob env jobId endScope) state fun _ after =>
      Board.Steps target request before (after.board none running) := by
  let faulty : SchedulerState := { state with log := state.log ++ [.retryFailed jobId] }
  have fault := path.tail (.fault jobId)
  have logged : SchedulerEvent.retryFailed jobId ∈ board.log ++ [.retryFailed jobId] :=
    List.mem_append_right _ (List.mem_singleton_self _)
  have still : Board.Queued { board with log := board.log ++ [.retryFailed jobId] }
      (faulty.board none running) jobId := by
    refine ⟨?_, queued.queue, queued.parked⟩
    exact congrArg (fun board : Board =>
      { board with log := board.log ++ [SchedulerEvent.retryFailed jobId] }) queued.same
  have failed : Ensures (failJob env jobId endScope) faulty fun outcome after =>
      Board.Moves target { board with log := board.log ++ [.retryFailed jobId] }
        (after.board (ChainAdvance.due none outcome.chainAdvance) running) :=
    failQueued_moves running target endScope still found unfinished (.inr (.inr logged))
  apply Ensures.modify
  apply failed.bind
  intro outcome after moves
  apply Ensures.pure
  have rest := moves.steps target request
  exact (fault.trans rest).tail (.drop jobId ((rest.log target request).subset logged))

/-- The first job of the queue is admitted, queued again or ended. -/
theorem retryAdmission_steps {board : Board} {pending : PendingResourceAdmission} {entry : JobEntry}
    {waiting : List JobId} (first : state.pendingResourceJobs = jobId :: waiting)
    (found : state.jobs.get jobId = some entry) (status : entry.status = .pending)
    (parked : state.pendingResource.get jobId = some pending)
    (path : Board.Steps target request board (state.board none running)) :
    Ensures (retryAdmission env jobId pending) { state with pendingResourceJobs := waiting }
      fun _ after => Board.Steps target request board (after.board none running) := by
  have unfinished : ¬ entry.status.isTerminal := by simp [status, JobStatus.isTerminal]
  have changed (change : JobEntry → JobEntry) := state.jobs.modify_eq_insert change found
  have stored (entry : JobEntry) : (state.jobs.insert jobId entry).get jobId = some entry :=
    (Table.get_insert ..).trans (if_pos rfl)
  unfold retryAdmission
  apply Ensures.bind (admitResourceScope_moves target jobId pending.baseScope _)
  intro result admitted admission
  obtain ⟨question, reservations, log, rfl⟩ : ∃ question reservations log, admitted =
      { state with
        pendingResourceJobs := waiting
        question := question, reservations := reservations, log := log } :=
    ⟨_, _, _, admission.frame⟩
  cases result with
  | error error =>
    have asking := admission.moves (state.board none running) entry ⟨rfl, rfl, rfl⟩ found unfinished
      (by simp)
    simp only [ResourceAdmission.entry, SchedulerState.board, state.jobs.insert_same found] at asking
    have explained := (path.trans (asking.steps target request)).tail
      (.move (.explain jobId entry (some error) found))
    apply Ensures.modify
    rw [changed]
    refine failRetried_steps running target request pending.baseScope ⟨rfl, ?_, ?_⟩ (stored _)
      unfinished explained
    · simp [SchedulerState.board, Board.admission, first]
    · simp [SchedulerState.board, Board.admission, Table.erase_absent, Table.get_erase]
  | ok answer =>
    cases answer with
    | pending reason =>
      have asking := admission.moves (state.board none running) entry ⟨rfl, rfl, rfl⟩ found unfinished
        (by simp)
      simp only [ResourceAdmission.entry, SchedulerState.board, state.jobs.insert_same found] at asking
      have explained := (path.trans (asking.steps target request)).tail
        (.move (.explain jobId entry (some reason) found))
      have queued := explained.tail (.rotate jobId waiting first)
      change Board.Steps target request board (SchedulerState.board { state with
        question := question, reservations := reservations, log := log
        jobs := state.jobs.modify jobId fun entry => { entry with pendingReason := some reason }
        pendingResourceJobs := waiting ++ [jobId] } none running)
      rw [changed]
      exact queued
    | granted spawnScope =>
      let resumed := { entry with
        status := .running, pendingReason := none, startScope := some pending.baseScope }
      have resuming := path.tail (.resume jobId waiting entry pending first found status parked)
      have asking := admission.moves
        ((state.board none running).resume jobId waiting entry pending.baseScope) resumed
        ⟨rfl, rfl, rfl⟩ (stored _) (by simp [resumed, JobStatus.isTerminal]) fun _ _ => ⟨rfl, rfl⟩
      have granted := (resuming.trans (asking.steps target request)).tail (.move .ask)
      simp only [ResourceAdmission.entry, Board.resume, SchedulerState.board, Board.admission,
        Table.insert_insert] at granted
      apply Ensures.modify
      unfold resumeJob
      apply Ensures.modify
      rw [changed]
      apply Ensures.bind (spawnProcessJob_spec _ _ _)
      intro answer spawned reached
      cases answer with
      | ok =>
        subst reached
        apply Ensures.pure
        exact granted.tail (.move (.launch jobId _ pending.plan spawnScope _ (stored _) rfl rfl))
      | error error =>
        subst reached
        exact failRetried_steps running target request spawnScope (.refl _ _) (stored _)
          (by simp [JobStatus.isTerminal]) granted

/-- One round of the retry loop. -/
theorem retryNext_steps {board : Board}
    (path : Board.Steps target request board (state.board none running)) :
    Ensures (retryNext env) state fun _ after =>
      Board.Steps target request board (after.board none running) := by
  unfold retryNext
  apply Ensures.get
  split
  · exact path
  · rename_i jobId waiting first
    apply Ensures.modify
    split
    · rename_i absent
      have discarded := path.tail (.discard jobId waiting first (.inl absent))
      rw [show (state.board none running).pendingResource = state.pendingResource from rfl,
        Table.erase_absent _ absent] at discarded
      exact discarded
    · rename_i pending parked
      split
      · rename_i open_
        obtain ⟨entry, found, status⟩ := (Option.any_eq_true ..).mp open_
        exact retryAdmission_steps running target request first found (by simpa using status) parked
          path
      · rename_i past
        refine path.tail (.discard jobId waiting first (.inr ?_))
        rintro entry found status
        exact past ((Option.any_eq_true ..).mpr ⟨entry, found, by simpa using status⟩)

theorem retryRounds_steps {board : Board} (rounds : ℕ)
    (path : Board.Steps target request board (state.board none running)) :
    Ensures (retryRounds env rounds) state fun _ after =>
      Board.Steps target request board (after.board none running) := by
  induction rounds generalizing state with
  | zero => exact path
  | succ rounds ih =>
    apply Ensures.bind (retryNext_steps running target request path)
    intro _ after path
    exact ih path

/-- Waiting jobs get another chance. -/
theorem retryPendingResourceAdmissions_steps {board : Board}
    (path : Board.Steps target request board (state.board none running)) :
    Ensures (retryPendingResourceAdmissions env) state fun _ after =>
      Board.Steps target request board (after.board none running) := by
  apply Ensures.get
  exact retryRounds_steps running target request _ path

end Retry

section Advance

variable {jobId : JobId} {update : TerminalStateUpdate}

/-- An advance concerns the chain of the job, and its leaves can be started. -/
theorem setJobTerminalState_startable (ended : update.status.isTerminal)
    (advances : update.advanceChain = true) (proper : update.status = .done ↔ update.exitCode = 0) :
    Ensures (setJobTerminalState env jobId update) state fun outcome after =>
      ∀ advance, outcome.chainAdvance = some advance →
        (∃ index, state.jobToChain.get jobId = some (advance.chainId, index)) ∧
        ∀ chain, after.chains.get advance.chainId = some chain →
          Startable chain.node.leafCount advance.newlyReady := by
  have path : Ensures (setJobTerminalState env jobId update) state fun outcome after =>
      Board.Moves ⟨fun _ => True, fun _ => True⟩ (state.board none [])
        (after.board (ChainAdvance.due none outcome.chainAdvance) []) :=
    setJobTerminalState_moves [] ⟨fun _ => True, fun _ => True⟩ ended advances (.inl trivial) (by simp)
      proper (by simp)
  cases place : (state.board none []).place jobId with
  | none =>
    apply (setJobTerminalState_alone [] ⟨fun _ => True, fun _ => True⟩ ended advances (.inl trivial) place
      proper).mono
    rintro outcome after ⟨nothing, -⟩ advance asked
    cases nothing.symm.trans asked
  | some found =>
    obtain ⟨⟨chainId, index⟩, located, rest⟩ := Option.bind_eq_some_iff.mp place
    obtain ⟨chain, active, -⟩ := Option.map_eq_some_iff.mp rest
    have shape : (state.chains.get chainId).map ChainState.node = some chain.node := by
      rw [show state.chains.get chainId = some chain from active, Option.map_some]
    apply (path.and (setJobTerminalState_advance ended advances located shape)).mono
    rintro outcome after ⟨moves, of⟩ advance asked
    rw [asked] at of
    obtain ⟨rfl, -⟩ := of advance rfl
    refine ⟨⟨index, located⟩, ?_⟩
    intro later found
    obtain ⟨still, reached, same⟩ := moves.active ⟨fun _ => True, fun _ => True⟩ active
    cases found.symm.trans reached
    have node : later.node = chain.node := by
      have := congrArg ChainState.node same
      exact this
    rw [node]
    exact of.startable

theorem advanceChainOf_steps {board : Board} {outcome : TerminalStateOutcome}
    (startable : ∀ advance, outcome.chainAdvance = some advance → target.chains advance.chainId ∧
      ∀ chain, state.chains.get advance.chainId = some chain →
        Startable chain.node.leafCount advance.newlyReady)
    (path : Board.Steps target request board
      (state.board (ChainAdvance.due none outcome.chainAdvance) running)) :
    Ensures (advanceChainOf env outcome) state fun _ after =>
      Board.Steps target request board (after.board none running) := by
  unfold advanceChainOf
  cases asked : outcome.chainAdvance with
  | none =>
    rw [asked] at path
    exact path
  | some advance =>
    rw [asked] at path
    obtain ⟨closes, ready⟩ := startable advance asked
    refine Ensures.bind (processChainAdvance_steps running target request _ closes ready) ?_
    rintro result after ⟨worked, -⟩
    exact path.trans worked

/-- The end of a job together with what it asks of its chain. -/
theorem endAndAdvance_steps {α : Type} {board : Board} {next : TerminalStateOutcome → Option String → Sched α}
    {post : α → SchedulerState → Prop} (ended : update.status.isTerminal)
    (advances : update.advanceChain = true) (proper : update.status = .done ↔ update.exitCode = 0)
    (reason : (state.board none running).MayEnd target jobId)
    (closes : ∀ chainId index, state.jobToChain.get jobId = some (chainId, index) →
      target.chains chainId)
    (path : Board.Steps target request board (state.board none running))
    (rest : ∀ outcome error after, Board.Steps target request board (after.board none running) →
      Ensures (next outcome error) after post) :
    Ensures (do
        let outcome ← setJobTerminalState env jobId update
        let error ← advanceChainOf env outcome
        next outcome error) state post := by
  have moved : Ensures (setJobTerminalState env jobId update) state fun outcome after =>
      Board.Moves target (state.board none running)
        (after.board (ChainAdvance.due none outcome.chainAdvance) running) :=
    setJobTerminalState_moves running target ended advances reason (by simp) proper (by simp)
  apply (moved.and (setJobTerminalState_startable ended advances proper)).bind
  rintro outcome after ⟨moves, startable⟩
  have reached := path.trans (moves.steps target request)
  refine (advanceChainOf_steps running target request ?_ reached).bind (rest outcome)
  intro advance asked
  obtain ⟨⟨index, located⟩, ready⟩ := startable advance asked
  exact ⟨closes _ index located, ready⟩

/-- A process has ended: its leaf and its chain go on, and waiting jobs get another chance. -/
theorem handleJobFinished_steps {board : Board} (exitCode : ℤ)
    (reason : (state.board none running).MayEnd target jobId)
    (closes : ∀ chainId index, state.jobToChain.get jobId = some (chainId, index) →
      target.chains chainId)
    (path : Board.Steps target request board (state.board none running)) :
    Ensures (handleJobFinished env jobId exitCode) state fun _ after =>
      Board.Steps target request board (after.board none running) := by
  have ended : (if exitCode = 0 then JobStatus.done else .failed).isTerminal := by
    split <;> rfl
  have proper : (if exitCode = 0 then JobStatus.done else .failed) = .done ↔ exitCode = 0 := by
    split <;> simp_all
  refine endAndAdvance_steps running target request ended rfl proper reason closes path ?_
  intro outcome error after reached
  exact retryPendingResourceAdmissions_steps running target request reached

end Advance

end CueShell
