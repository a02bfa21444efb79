import CueShell.Proofs.SchedulerScripts

/-! # Turns of the loop

Between two messages nothing is due on any chain and no script is under way. A turn leads from one such
state to the next: a round of flows, or a change of the sessions alone. Until the loop is stopped, a run is a
sequence of turns; what every turn keeps holds in every state the scheduler rests in.
-/

namespace CueShell

open Relation (ReflTransGen)

variable {env : Env} {config : Config} {state : SchedulerState}
variable {clientId : ClientId} {requestId : UInt32} {isOpen : Bool}

/-- The board of a scheduler between two messages. -/
def SchedulerState.rest (state : SchedulerState) : Board := state.board none []

/-- Flows that leave no script behind; a path that may also start scripts. -/
structure Board.Round (config : Config) (occasion : Occasion) (before after : Board) :
    Prop where
  flows : Board.Flows config occasion before after
  jobs : ∀ jobId, after.DueJob jobId → before.DueJob jobId ∨ .retryFailed jobId ∈ after.log
  chains : ∀ chainId, after.DueChain chainId →
    before.DueChain chainId ∨ ∃ other, .cancelUnsaved other ∈ after.log

theorem Board.Path.round {occasion : Occasion} {before after : Board}
    (path : Board.Path config occasion before after) : Board.Round config occasion before after :=
  ⟨path.flows, path.jobs, path.chains⟩

theorem Board.Round.trans {occasion : Occasion} {first middle last : Board}
    (start : Board.Round config occasion first middle) (rest : Board.Round config occasion middle last) :
    Board.Round config occasion first last where
  flows := start.flows.trans rest.flows
  jobs jobId due := by
    rcases rest.jobs jobId due with earlier | failed
    · exact (start.jobs jobId earlier).imp_right (rest.flows.log.subset ·)
    · exact .inr failed
  chains chainId due := by
    rcases rest.chains chainId due with earlier | failed
    · refine (start.chains chainId earlier).imp_right ?_
      rintro ⟨other, unsaved⟩
      exact ⟨other, rest.flows.log.subset unsaved⟩
    · exact .inr failed

/-- What happens from one state in which the scheduler rests to the next, while clients and crons may
start new work or may not. -/
inductive Turn (env : Env) (config : Config) (isOpen : Bool) : SchedulerState → SchedulerState → Prop
  | round {before after : SchedulerState} {occasion : Occasion}
      (round : Board.Round config occasion before.rest after.rest)
      (allowed : occasion.isOpen → isOpen) : Turn env config isOpen before after
  | sweep {state : SchedulerState} : Turn env config isOpen state (sweepSessions env state).2
  | connect {state : SchedulerState} (clientId : ClientId) (sessionId : SessionId) (refresh : Bool) :
      Turn env config isOpen state (connectMessage env clientId sessionId refresh state).2
  | session {state : SchedulerState} (clientId : ClientId) (command : SessionCommand) :
      Turn env config isOpen state (sessionMessage env clientId command state).2
  | disconnect {state : SchedulerState} (clientId : ClientId) :
      Turn env config isOpen state (disconnectMessage env clientId state).2

abbrev Turns (env : Env) (config : Config) (isOpen : Bool) : SchedulerState → SchedulerState → Prop :=
  ReflTransGen (Turn env config isOpen)

section Messages

variable (orderly : state.rest.Orderly)

/-- A silent answer to the client whose request is handled. -/
theorem reply_path (config : Config) (isOpen : Bool) {response : Response} (silent : response.Silent) :
    Ensures (reply clientId requestId response) state fun _ after =>
      Board.Path config ⟨some (clientId, requestId), isOpen⟩ state.rest after.rest :=
  .single (.reply clientId requestId response rfl silent) (fun _ due => due) (fun _ due => due) le_rfl

/-- The rounds of a message suffice for all scripts. -/
theorem continuePendingScript_rounds (env : Env) (config : Config)
    (occasion : Occasion) (rounds : ℕ) :
    Resumes config occasion rounds (continuePendingScript env config rounds) :=
  continuePendingScript_resumes (submitPendingScriptNext_path rounds)

include orderly in
theorem handleCommand_serves (occasion : Occasion) (command : SingleCommand)
    (allowed : commandStartsExecution (.single command) → occasion.isOpen) :
    Serves config occasion [] false (handleCommand env config command clientId) state := by
  apply Ensures.get
  exact handleCommandWithScope_serves occasion (continuePendingScript_rounds env config occasion _)
    orderly (Nat.lt_succ_self _) command clientId {} (by simp) fun starts => .inl (allowed starts)

/-- The answer to a `:wait` is given at once, or when the job ends. -/
theorem waitCommand_path (id : String) :
    Ensures (do
      let response ← handleWaitCommand env id clientId requestId
      response.forM (reply clientId requestId)) state fun _ after =>
        Board.Path config ⟨some (clientId, requestId), isOpen⟩ state.rest after.rest := by
  have refused (after : SchedulerState) (code message : String) :
      Ensures (reply clientId requestId (errorResponse code message)) after fun _ last =>
        Board.Path config ⟨some (clientId, requestId), isOpen⟩ after.rest last.rest :=
    reply_path config isOpen (errorResponse_silent code message)
  cases named : parseJobId id with
  | none =>
    simp only [handleWaitCommand, named]
    split <;> exact refused state _ _
  | some jobId =>
    have asked : Ensures (authorizeSessionOwnedTarget env (state.namedSessionIdForClient clientId)
        (.job jobId)) state fun _ after => after = { state with question := state.question + 1 } := rfl
    have path : Board.Path config ⟨some (clientId, requestId), isOpen⟩ state.rest
        (SchedulerState.rest { state with question := state.question + 1 }) := Board.Path.asks _ 1
    simp only [handleWaitCommand, named, bind_assoc]
    apply Ensures.get
    refine asked.bind ?_
    rintro allowed after rfl
    split
    · simp only [bind_assoc]
      apply Ensures.get
      split
      · exact (refused _ _ _).mono fun _ _ => path.trans
      · rename_i entry found
        simp only [bind_assoc]
        apply Ensures.modify
        split
        · rename_i ended
          have answered : Board.Path config ⟨some (clientId, requestId), isOpen⟩
              (SchedulerState.rest { state with question := state.question + 1 })
              (SchedulerState.rest { state with
                question := state.question + 1
                log := (state.log ++ [.waits clientId requestId jobId]) ++
                  [.replied clientId requestId (.ok (.jobInfo jobId entry))] }) := by
            rw [List.append_assoc]
            exact .single (.answer clientId requestId jobId entry rfl found ended)
              (fun _ due => due) (fun _ due => due) le_rfl
          exact path.trans answered
        · rename_i unfinished
          exact path.trans (.single (.wait clientId requestId jobId entry rfl found unfinished)
            (fun _ due => due) (fun _ due => due) le_rfl)
    · exact (refused _ _ _).mono fun _ _ => path.trans

theorem createIsolatedScriptScope_asks :
    Ensures (createIsolatedScriptScope env clientId) state fun result after => AsksOnly state after ∧
      ∀ response, result = .error response → response.Silent := by
  unfold createIsolatedScriptScope
  apply Ensures.get
  split
  · refine ⟨.refl state, ?_⟩
    rintro response ⟨⟩
    exact errorResponse_silent _ _
  · apply Ensures.bind (ask_spec _)
    rintro derived _ ⟨-, rfl⟩
    cases derived with
    | error error =>
      refine ⟨⟨1, rfl⟩, ?_⟩
      rintro response ⟨⟩
      exact errorResponse_silent _ _
    | ok scope =>
      refine ⟨⟨1, rfl⟩, ?_⟩
      rintro response ⟨⟩

include orderly in
theorem startPendingScriptRun_round (occasion : Occasion) (isOpen : occasion.isOpen)
    (source : ScriptSource) (items : List ResolvedScriptItem) :
    Ensures (startPendingScriptRun env config source items clientId) state fun response after =>
      Board.Round config occasion state.rest after.rest ∧ ∀ answer ∈ response, answer.Silent := by
  have allocated (state : SchedulerState) : Ensures allocScript state fun scriptId after =>
      scriptId = state.nextScript ∧ after = { state with nextScript := state.nextScript + 1 } :=
    ⟨rfl, rfl⟩
  unfold startPendingScriptRun
  apply Ensures.bind (ask_only _)
  intro saturated asked first
  have first : Board.Path config occasion state.rest asked.rest := first.path
  split
  · refine ⟨first.round, ?_⟩
    rintro answer ⟨⟩
    exact errorResponse_silent _ _
  · apply Ensures.bind (allocated asked)
    rintro scriptId _ ⟨rfl, rfl⟩
    apply Ensures.bind createIsolatedScriptScope_asks
    rintro derived after ⟨⟨count, rfl⟩, silent⟩
    let ready : SchedulerState := { asked with question := asked.question + count }
    have second : Board.Path config occasion state.rest ready.rest :=
      first.trans (Board.Path.asks _ count)
    cases derived with
    | error response =>
      have skipped : Board.Path config occasion ready.rest
          (SchedulerState.rest { ready with nextScript := ready.nextScript + 1 }) :=
        .single .skip (fun _ due => due) (fun _ due => due) le_rfl
      refine ⟨(second.trans skipped).round, ?_⟩
      rintro answer ⟨⟩
      exact silent _ rfl
    | ok itemScope =>
      let script : PendingScriptRun :=
        { clientId := clientId
          scriptId := asked.nextScript
          source := source
          items := items
          nextIndex := 0
          itemScope := itemScope
          createdItems := []
          lastExitCode := 0
          waitingIndex := none
          sessionId := ready.namedSessionIdForClient clientId }
      let started : SchedulerState := { ready with
        nextScript := ready.nextScript + 1
        log := ready.log ++ [.scriptStarted script.scriptId items.length] }
      have start : Board.Round config occasion ready.rest (started.board none [⟨script, .idle⟩]) :=
        ⟨.single (.start isOpen script ⟨rfl, rfl, rfl⟩ rfl), fun _ due => .inl due, fun _ due => .inl due⟩
      have third := second.round.trans start
      apply Ensures.get
      apply Ensures.modify
      have few : script.items.length + started.openItems < items.length + started.openItems + 1 :=
        Nat.lt_succ_self _
      have submits : Submits env config occasion (items.length + started.openItems + 1) :=
        submitPendingScriptNext_path _
      refine (submits started script [] true (orderly.flows third.flows) few).mono ?_
      exact fun response last reached => ⟨third.trans reached.1.round, reached.2⟩

/-- A request is carried out and answered. -/
theorem evalCommand_round (orderly : state.rest.Orderly) (command : ResolvedCommand)
    (allowed : commandStartsExecution command → isOpen) :
    Ensures (do
      let response ← evalCommand env config command clientId requestId
      response.forM (reply clientId requestId)) state fun _ after =>
        Board.Round config ⟨some (clientId, requestId), isOpen⟩ state.rest after.rest := by
  have answered {response : Option Response} {after : SchedulerState}
      (silent : ∀ answer ∈ response, answer.Silent)
      (round : Board.Round config ⟨some (clientId, requestId), isOpen⟩ state.rest after.rest) :
      Ensures (response.forM (reply clientId requestId)) after fun _ last =>
        Board.Round config ⟨some (clientId, requestId), isOpen⟩ state.rest last.rest := by
    cases response with
    | none => exact round
    | some response =>
      refine (reply_path config isOpen (silent response rfl)).mono ?_
      exact fun _ last path => round.trans path.round
  cases command with
  | single command =>
    by_cases waits : ∃ id, command = .wait id
    · obtain ⟨id, rfl⟩ := waits
      exact (waitCommand_path id).mono fun _ _ => Board.Path.round
    · have plain : evalCommand env config (.single command) clientId requestId =
          (do return some (← handleCommand env config command clientId)) := by
        cases command <;> first | rfl | exact (waits ⟨_, rfl⟩).elim
      rw [plain, bind_assoc]
      refine Ensures.bind (handleCommand_serves orderly ⟨some (clientId, requestId), isOpen⟩ command
        allowed) ?_
      rintro response after ⟨path, proper⟩
      refine answered (?_ : ∀ answer ∈ some response, answer.Silent) path.round
      rintro answer ⟨⟩
      exact proper.silent
  | script span source items =>
    cases source with
    | inline =>
      refine (reply_path config isOpen (errorResponse_silent _ _)).mono fun _ _ => Board.Path.round
    | file path =>
      refine Ensures.bind (startPendingScriptRun_round orderly
        ⟨some (clientId, requestId), isOpen⟩ (allowed rfl) (.file path) items) ?_
      exact fun response after reached => answered reached.2 reached.1

/-- The exit of a process: its chain goes on, waiting jobs get another chance, and the scripts that
waited go on. -/
theorem jobFinished_path (orderly : state.rest.Orderly) (occasion : Occasion)
    (jobId : JobId) (exitCode : ℤ) :
    Ensures (jobFinished env config jobId exitCode) state fun _ after =>
      Board.Path config occasion state.rest after.rest := by
  let target : Targets := ⟨(· = jobId), fun chainId => ∃ index,
    state.jobToChain.get jobId = some (chainId, index)⟩
  unfold jobFinished
  refine Ensures.bind (handleJobFinished_steps [] target none exitCode (.inl rfl)
    (fun chainId index located => ⟨index, located⟩) .refl) ?_
  intro _ finished steps
  have trail : Board.Trail config occasion _ (state.board none []) (finished.board none []) :=
    steps.trail orderly
  apply Ensures.get
  refine (advancePendingScriptsAfterTerminalJob_trail (continuePendingScript_rounds env config occasion _)
    (orderly.flows trail.flows) (Nat.lt_succ_self _) jobId exitCode).mono ?_
  intro _ after rest
  refine (trail.trans rest (fun _ due => due.1) (fun _ due => due.elim)).path ?_ ?_
  · rintro other ⟨earlier | same, -, apart⟩
    · exact earlier
    · exact absurd same apart
  · exact fun chainId due => due.2.elim

end Messages

section Retention

variable {target : Targets} {request : Option SpawnChainRequest} {before after : Board}
variable {occasion : Occasion}

/-- The database keeps rows of jobs that have ended only. -/
def Board.Recorded (board : Board) : Prop :=
  ∀ jobId ∈ board.history.keys, jobId < board.nextJob ∧
    ∀ entry, board.jobs.get jobId = some entry → entry.status.isTerminal

theorem Board.Step.jobs_keys (step : Board.Step target request before after) :
    after.jobs.keys ⊆ insert before.nextJob before.jobs.keys := by
  cases step with
  | move change =>
    obtain ⟨-, -, -, counts⟩ := change.counts
    cases counts with
    | same nextJob jobs places =>
      rw [jobs]
      exact Finset.subset_insert _ _
    | job nextJob jobs places => exact jobs.le
  | enterJob => exact Finset.Subset.refl _
  | parkJob => exact Finset.Subset.refl _
  | resume jobId waiting entry pending first found =>
    refine (Finset.Subset.trans (le_of_eq ?_) (Finset.subset_insert _ _))
    exact Table.keys_insert_known _ _ (by simp [found])
  | _ => exact Finset.subset_insert _ _

theorem Board.Step.nextJob_le (step : Board.Step target request before after) :
    before.nextJob ≤ after.nextJob := by
  cases step with
  | move change =>
    obtain ⟨-, -, -, counts⟩ := change.counts
    cases counts with
    | same nextJob => exact nextJob.ge
    | job nextJob =>
      rw [nextJob]
      exact Nat.le_succ _
  | enterJob => exact Nat.le_succ _
  | parkJob => exact Nat.le_succ _
  | _ => exact Nat.le_refl _

/-- A row is written for a job that has ended. -/
theorem Board.Step.history (step : Board.Step target request before after) :
    ∀ jobId ∈ after.history.keys, jobId ∈ before.history.keys ∨
      ∃ entry, before.jobs.get jobId = some entry ∧ entry.status.isTerminal := by
  intro jobId member
  cases step with
  | move change =>
    cases change with
    | store stored entry found ended =>
      rcases Finset.mem_insert.mp member with rfl | old
      · exact .inr ⟨entry, found, ended⟩
      · exact .inl old
    | transform =>
      rw [Board.history_follow] at member
      exact .inl member
    | finish =>
      rw [Board.history_follow] at member
      exact .inl member
    | _ => exact .inl member
  | _ => exact .inl member

theorem Board.Recorded.step (recorded : before.Recorded) (orderly : before.Orderly)
    (step : Board.Step target request before after) : after.Recorded := by
  intro jobId member
  have known : jobId < before.nextJob ∧
      ∀ entry, before.jobs.get jobId = some entry → entry.status.isTerminal := by
    rcases step.history jobId member with old | ⟨entry, found, ended⟩
    · exact recorded jobId old
    · refine ⟨orderly.jobs jobId ((before.jobs.mem_keys jobId).mpr (by simp [found])), ?_⟩
      intro other same
      cases found.symm.trans same
      exact ended
  obtain ⟨old, past⟩ := known
  refine ⟨Nat.lt_of_lt_of_le old step.nextJob_le, ?_⟩
  intro later stored
  have present := step.jobs_keys ((after.jobs.mem_keys jobId).mpr (by simp [stored]))
  have listed := (Finset.mem_insert.mp present).resolve_left (fun same => by
    rw [same] at old
    exact Nat.lt_irrefl _ old)
  obtain ⟨entry, found⟩ := Option.isSome_iff_exists.mp ((before.jobs.mem_keys jobId).mp listed)
  obtain ⟨next, reached, advances⟩ := step.job orderly found
  cases stored.symm.trans reached
  rw [(advances.evolves.ended (past entry found)).1]
  exact past entry found

theorem Board.get_pruned {removed : JobId → Bool} {jobId : JobId} {entry : JobEntry}
    (found : (before.pruned removed).jobs.get jobId = some entry) :
    removed jobId = false ∧ before.jobs.get jobId = some entry := by
  dsimp only [Board.pruned] at found
  rw [Table.get_retain_key] at found
  split at found
  · rename_i kept
    exact ⟨by simpa using kept, found⟩
  · cases found

theorem Board.Recorded.flow (recorded : before.Recorded) (orderly : before.Orderly)
    (flow : Board.Flow config occasion before after) : after.Recorded := by
  rcases flow.kinds with ⟨target, request, step, -⟩ | ⟨removed, -, rfl⟩ | beside
  · exact recorded.step orderly step
  · intro jobId member
    obtain ⟨known, past⟩ := recorded jobId (Table.keys_retain_subset _ _ member)
    exact ⟨known, fun entry found => past entry (Board.get_pruned found).2⟩
  · intro jobId member
    rw [beside.history] at member
    rw [beside.nextJob, beside.jobs]
    exact recorded jobId member

theorem Board.Recorded.flows (recorded : before.Recorded) (orderly : before.Orderly)
    (flows : Board.Flows config occasion before after) : after.Recorded := by
  induction flows with
  | refl => exact recorded
  | tail path flow ih => exact ih.flow (orderly.flows path) flow

theorem prunedRows_ended {history : Table JobId JobStatus} {keep : ℕ} {jobId : JobId}
    (pruned : jobId ∈ prunedRows history keep) :
    ∃ status, history.get jobId = some status ∧ status.isTerminal := by
  have member := List.mem_of_mem_take pruned
  rw [Finset.mem_sort, Finset.mem_filter] at member
  exact (Option.any_eq_true ..).mp member.2

/-- Only rows of jobs that have ended are pruned. -/
theorem prune_round (occasion : Occasion) (recorded : state.rest.Recorded) :
    Ensures (pruneRetainedJobHistory env config) state fun _ after =>
      Board.Round config occasion state.rest after.rest := by
  unfold pruneRetainedJobHistory
  apply Ensures.bind (ask_spec _)
  rintro error _ ⟨-, rfl⟩
  let asked : SchedulerState := { state with question := state.question + 1 }
  have first : Board.Path config occasion state.rest asked.rest := Board.Path.asks _ 1
  cases error with
  | some error => exact first.round
  | none =>
    let removed (jobId : JobId) : Bool := jobId ∈ prunedRows state.history config.maxJobHistory
    have pruned : Board.Flow config occasion asked.rest (asked.rest.pruned removed) :=
      .prune removed fun jobId gone => prunedRows_ended (of_decide_eq_true gone)
    have same : asked.rest.pruned removed = SchedulerState.rest { asked with
        history := state.history.retain fun jobId _ =>
          jobId ∉ prunedRows state.history config.maxJobHistory
        jobs := state.jobs.retain fun jobId _ =>
          jobId ∉ prunedRows state.history config.maxJobHistory } := by
      simp only [Board.pruned, removed, SchedulerState.rest, SchedulerState.board, decide_not, asked]
    refine first.round.trans ?_
    have round : Board.Round config occasion asked.rest (asked.rest.pruned removed) := by
      refine ⟨.single pruned, fun jobId due => .inl ⟨due.1, fun entry found => ?_⟩,
        fun _ due => .inl due⟩
      cases gone : removed jobId with
      | true =>
        obtain ⟨status, row, -⟩ := prunedRows_ended (of_decide_eq_true gone)
        exact (recorded jobId ((state.history.mem_keys jobId).mpr (by simp [row]))).2 entry found
      | false =>
        refine due.2 entry ?_
        dsimp only [Board.pruned]
        rw [Table.get_retain_key, gone]
        exact found
    rw [same] at round
    exact round

end Retention

section Loop

/-- What holds whenever the scheduler rests. -/
structure SchedulerState.Resting (state : SchedulerState) : Prop where
  orderly : state.rest.Orderly
  recorded : state.rest.Recorded

variable {later : SchedulerState}

/-- Only the sessions change. -/
theorem SchedulerState.Resting.sessions (resting : state.Resting) (sessions : SessionRegistry)
    (question : ℕ) :
    SchedulerState.Resting { state with sessions := sessions, question := question } := by
  obtain ⟨orderly, recorded⟩ := resting
  exact ⟨⟨orderly.leaves, orderly.places, orderly.jobs, orderly.chains, orderly.completed,
    orderly.scriptJobs, orderly.scriptChains, orderly.scripts, orderly.running⟩, recorded⟩

/-- Messages about sessions change nothing else. -/
theorem Turn.kinds (turn : Turn env config isOpen state later) :
    (∃ occasion, Board.Round config occasion state.rest later.rest) ∨
      ∃ sessions question, later = { state with sessions := sessions, question := question } := by
  cases turn with
  | round round => exact .inl ⟨_, round⟩
  | sweep => exact .inr ⟨_, _, rfl⟩
  | connect clientId sessionId refresh => exact .inr ⟨_, _, rfl⟩
  | session clientId command => exact .inr ⟨_, _, rfl⟩
  | disconnect clientId => exact .inr ⟨_, _, rfl⟩

/-- Turns add to the log. -/
theorem Turn.log (turn : Turn env config isOpen state later) : state.log <+: later.log := by
  rcases turn.kinds with ⟨occasion, round⟩ | ⟨sessions, question, rfl⟩
  · exact round.flows.log
  · exact List.prefix_rfl

theorem Turns.log (turns : Turns env config isOpen state later) : state.log <+: later.log := by
  induction turns with
  | refl => exact List.prefix_rfl
  | tail _ turn ih => exact ih.trans turn.log

theorem SchedulerState.Resting.turn (resting : state.Resting) (turn : Turn env config isOpen state later) :
    later.Resting := by
  rcases turn.kinds with ⟨occasion, round⟩ | ⟨sessions, question, rfl⟩
  · exact ⟨resting.orderly.flows round.flows, resting.recorded.flows resting.orderly round.flows⟩
  · exact resting.sessions sessions question

theorem SchedulerState.Resting.turns (resting : state.Resting) (turns : Turns env config isOpen state later) :
    later.Resting := by
  induction turns with
  | refl => exact resting
  | tail _ turn ih => exact ih.turn turn

theorem refusal_silent {closed : Bool} {command : ResolvedCommand} {response : Response}
    (refused : refusal closed state command clientId = some response) : response.Silent := by
  unfold refusal at refused
  split at refused
  · cases refused
    exact errorResponse_silent _ _
  · split at refused
    · cases refused
      exact errorResponse_silent _ _
    · cases refused

theorem scriptInfoMessage_path (id : String) :
    Ensures (scriptInfoMessage env clientId requestId id) state fun _ after =>
      Board.Path config ⟨some (clientId, requestId), isOpen⟩ state.rest after.rest := by
  unfold scriptInfoMessage
  apply Ensures.get
  split
  · exact reply_path config isOpen (errorResponse_silent _ _)
  · apply Ensures.bind (ask_spec _)
    rintro response _ ⟨rfl, rfl⟩
    have first : Board.Path config ⟨some (clientId, requestId), isOpen⟩ state.rest
        (SchedulerState.rest { state with question := state.question + 1 }) := Board.Path.asks _ 1
    refine (reply_path config isOpen (fun jobId entry same => ?_)).mono fun _ _ => first.trans
    have plain := env.scriptInfo_plain state.question (state.namedSessionIdForClient clientId) id
    simp [same, Response.plain] at plain

end Loop

namespace SchedulerLoop

variable {loop : SchedulerLoop}

/-- A turn that starts no new work. -/
theorem quiet_turns {later : SchedulerState} {asker : Option (ClientId × UInt32)}
    (path : Board.Path config ⟨asker, false⟩ state.rest later.rest) :
    Turns env config isOpen state later :=
  .single (.round path.round (by simp))

/-- A message has been handled, and old rows are pruned. -/
theorem settle_turns (resting : state.Resting) (turns : Turns env config isOpen state loop.state) :
    Turns env config isOpen state (loop.settle env config).state := by
  have pruned : Ensures (pruneRetainedJobHistory env config) loop.state fun _ after =>
      Turns env config isOpen state after :=
    (prune_round ⟨none, false⟩ (resting.turns turns).recorded).mono fun _ _ round =>
      turns.tail (.round round (by simp))
  unfold settle
  dsimp only
  split <;> exact pruned

theorem evalMessage_turns (command : ResolvedCommand) (resting : loop.state.Resting)
    (gate : loop.draining = false → isOpen = true) :
    Turns env config isOpen loop.state
      (loop.evalMessage env config clientId requestId command).state := by
  unfold evalMessage
  split
  · rename_i response refused
    have path : Ensures (reply clientId requestId response) loop.state fun _ after =>
        Board.Path config ⟨some (clientId, requestId), false⟩ loop.state.rest after.rest :=
      reply_path config false (refusal_silent refused)
    exact quiet_turns path
  · rename_i accepted
    have allowed (starts : commandStartsExecution command = true) : isOpen = true := by
      apply gate
      by_contra draining
      simp only [refusal, starts, Bool.and_true] at accepted
      split at accepted
      · cases accepted
      · simp [draining] at accepted
    have round : Ensures (do
        let response ← evalCommand env config command clientId requestId
        response.forM (reply clientId requestId)) loop.state fun _ after =>
          Turns env config isOpen loop.state after :=
      (evalCommand_round resting.orderly command allowed).mono fun _ _ round =>
        .single (.round round id)
    exact settle_turns resting round

/-- A turn of the loop that does not stop it. -/
theorem handleWake_turns (wake : Wake) (resting : loop.state.Resting)
    (gate : loop.draining = false → isOpen = true)
    (still : (loop.handleWake env config wake).stopped = false) :
    Turns env config isOpen loop.state (loop.handleWake env config wake).state := by
  cases wake with
  | startupActivation =>
    dsimp only [handleWake]
    split <;> exact .refl
  | timer =>
    dsimp only [handleWake]
    split
    · exact .refl
    · rename_i running
      have opened : isOpen = true := gate (by simp at running; exact running.2)
      have path : Ensures (fireDueCrons env config) loop.state fun _ after =>
          Board.Path config ⟨none, isOpen⟩ loop.state.rest after.rest :=
        fireDueCrons_path ⟨none, isOpen⟩ opened resting.orderly
      exact .single (.round (Board.Path.round path) id)
  | message message =>
    cases message with
    | activate isStarting => exact settle_turns resting .refl
    | beginDrain => exact settle_turns resting .refl
    | connect clientId sessionId refresh =>
      exact settle_turns resting (.single (.connect clientId sessionId refresh))
    | session clientId command => exact settle_turns resting (.single (.session clientId command))
    | disconnect clientId => exact settle_turns resting (.single (.disconnect clientId))
    | scriptInfo clientId requestId id =>
      have path : Ensures (scriptInfoMessage env clientId requestId id) loop.state fun _ after =>
          Board.Path config ⟨some (clientId, requestId), false⟩ loop.state.rest after.rest :=
        scriptInfoMessage_path id
      exact settle_turns resting (quiet_turns path)
    | eval clientId requestId command => exact evalMessage_turns command resting gate
    | jobFinished jobId exitCode =>
      have path : Ensures (CueShell.jobFinished env config jobId exitCode) loop.state fun _ after =>
          Board.Path config ⟨none, false⟩ loop.state.rest after.rest :=
        jobFinished_path resting.orderly ⟨none, false⟩ jobId exitCode
      exact settle_turns resting (quiet_turns path)
    | shutdown => cases still

theorem step_turns (wake : Wake) (resting : loop.state.Resting)
    (gate : loop.draining = false → isOpen = true)
    (still : (loop.step env config wake).stopped = false) :
    Turns env config isOpen loop.state (loop.step env config wake).state := by
  unfold step at still ⊢
  split
  · exact .refl
  · rename_i open_
    rw [if_neg open_] at still
    have swept : Turn env config isOpen loop.state (loop.after (sweepSessions env)).state := .sweep
    exact .head swept (handleWake_turns wake (resting.turn swept) gate still)

theorem step_stopped (stopped : loop.stopped = true) (wake : Wake) :
    loop.step env config wake = loop := by
  unfold step
  rw [if_pos stopped]

/-- A loop that is stopped stays as it is. -/
theorem run_stopped (stopped : loop.stopped = true) (wakes : List Wake) :
    loop.run env config wakes = loop := by
  induction wakes with
  | nil => rfl
  | cons wake wakes ih =>
    rw [run, List.foldl_cons, step_stopped stopped]
    exact ih

/-- A loop that is stopped stays stopped. -/
theorem open_of_step {wake : Wake} (still : (loop.step env config wake).stopped = false) :
    loop.stopped = false := by
  cases stopped : loop.stopped with
  | false => rfl
  | true =>
    rw [step_stopped stopped, stopped] at still
    cases still

theorem open_of_run {wakes : List Wake} (still : (loop.run env config wakes).stopped = false) :
    loop.stopped = false := by
  cases stopped : loop.stopped with
  | false => rfl
  | true =>
    rw [run_stopped stopped, stopped] at still
    cases still

theorem settle_draining : (loop.settle env config).draining = loop.draining := by
  unfold settle
  dsimp only
  split <;> rfl

/-- A loop that drains never takes on work again. -/
theorem step_draining (wake : Wake) (draining : loop.draining = true) :
    (loop.step env config wake).draining = true := by
  unfold step
  split
  · exact draining
  · cases wake with
    | startupActivation =>
      dsimp only [handleWake]
      split <;> exact draining
    | timer =>
      dsimp only [handleWake]
      split <;> exact draining
    | message message =>
      cases message with
      | eval clientId requestId command =>
        dsimp only [handleWake, handleMessage, evalMessage]
        split
        · exact draining
        · exact settle_draining.trans draining
      | shutdown => exact draining
      | beginDrain => exact settle_draining
      | _ => exact settle_draining.trans draining

/-- Until the loop is stopped, a run is a sequence of turns. -/
theorem run_turns (wakes : List Wake) (resting : loop.state.Resting)
    (gate : loop.draining = false → isOpen = true)
    (still : (loop.run env config wakes).stopped = false) :
    Turns env config isOpen loop.state (loop.run env config wakes).state := by
  induction wakes generalizing loop with
  | nil => exact .refl
  | cons wake wakes ih =>
    rw [run, List.foldl_cons] at still ⊢
    have open_ : (loop.step env config wake).stopped = false := open_of_run still
    have later (running : (loop.step env config wake).draining = false) : isOpen = true := by
      apply gate
      by_contra draining
      rw [step_draining wake (by simpa using draining)] at running
      cases running
    have turns := step_turns wake resting gate open_
    exact turns.trans (ih (resting.turns turns) later still)

end SchedulerLoop

/-- A state that was read from the database. -/
theorem Restored.resting (restored : Restored state) : state.Resting where
  orderly := by
    have none {ν : Type} {table : Table ℕ ν} (empty : table = .empty) (key : ℕ)
        (member : key ∈ table.keys) : False := by
      rw [empty] at member
      exact Finset.notMem_empty key member
    refine ⟨?_, ?_, ?_, ?_, ?_, ?_, ?_, ?_, ?_⟩
    · intro chainId chain index jobId active
      have active : state.chains.get chainId = some chain := active
      rw [restored.chains] at active
      cases active
    · exact fun jobId member => (none restored.jobToChain jobId member).elim
    · intro jobId member
      obtain ⟨entry, found⟩ := Option.isSome_iff_exists.mp ((state.jobs.mem_keys jobId).mp member)
      exact restored.known jobId entry found
    · exact fun chainId member => (none restored.chains chainId member).elim
    · exact fun chainId member => (none restored.completedChains chainId member).elim
    · exact fun jobId member => (none restored.pendingScriptJobs jobId member).elim
    · exact fun chainId member => (none restored.pendingScriptChains chainId member).elim
    · intro scriptId script found
      have found : state.pendingScripts.get scriptId = some script := found
      rw [restored.pendingScripts] at found
      cases found
    · exact fun current member => nomatch member
  recorded := by
    intro jobId member
    have stored := (state.history.mem_keys jobId).mp member
    rw [restored.stored, Option.isSome_map] at stored
    obtain ⟨entry, found⟩ := Option.isSome_iff_exists.mp stored
    exact ⟨restored.known jobId entry found, restored.ended jobId⟩

theorem SchedulerState.new_restored : Restored SchedulerState.new := by
  constructor <;> simp [SchedulerState.new]

/-- The loop starts after old rows have been pruned. -/
theorem SchedulerLoop.boot_turns (restored : Restored state) (isStarting : Bool) :
    Turns env config isOpen state (SchedulerLoop.boot env config state isStarting).state :=
  .single (.round (prune_round ⟨none, false⟩ restored.resting.recorded) (by simp))

/-- A run of the scheduler, from what was read from the database. -/
def SchedulerLoop.history (env : Env) (config : Config) (state : SchedulerState) (isStarting : Bool)
    (wakes : List Wake) : SchedulerLoop :=
  (SchedulerLoop.boot env config state isStarting).run env config wakes

/-- Until it is stopped, the scheduler rests in states that turns lead to. -/
theorem SchedulerLoop.history_turns (restored : Restored state) (isStarting : Bool)
    (wakes : List Wake) (still : (history env config state isStarting wakes).stopped = false) :
    Turns env config true state (history env config state isStarting wakes).state := by
  have boot : Turns env config true state _ := SchedulerLoop.boot_turns restored isStarting
  exact boot.trans (run_turns wakes (restored.resting.turns boot) (fun _ => rfl) still)

end CueShell
