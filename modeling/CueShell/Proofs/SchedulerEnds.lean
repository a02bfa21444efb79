import CueShell.Proofs.SchedulerCommands

/-! # Ends and the scripts that wait for them

A trail is a sequence of flows after which a script waits for something that has ended only where it is
said so. When a user ends a job, the steps that follow leave a trail: the job and its chain may be due.
The scripts that wait for them then go on until nothing is due, so the whole command is a path. What a
script makes when it goes on is a parameter here, as in the commands themselves; it must be a path as
well, and it may rely on more rounds than there are items.
-/

namespace CueShell

variable {env : Env} {config : Config} (occasion : Occasion)
variable {state : SchedulerState} {running : List RunningScript} {retained : Bool}

/-- Flows after which a script waits for something that has ended only where it is said so. -/
structure Board.Trail (config : Config) (occasion : Occasion) (left : Targets)
    (before after : Board) : Prop where
  flows : Board.Flows config occasion before after
  jobs : ∀ jobId, after.DueJob jobId → left.jobs jobId ∨ .retryFailed jobId ∈ after.log
  chains : ∀ chainId, after.DueChain chainId →
    left.chains chainId ∨ ∃ other, .cancelUnsaved other ∈ after.log
  items : after.items ≤ before.items

section Trails

variable {occasion} {left : Targets} {before middle after : Board}

theorem Board.Path.trail (path : Board.Path config occasion before after) :
    Board.Trail config occasion ⟨before.DueJob, before.DueChain⟩ before after :=
  ⟨path.flows, path.jobs, path.chains, path.items⟩

theorem Board.Trail.path (trail : Board.Trail config occasion left before after)
    (jobs : ∀ jobId, left.jobs jobId → before.DueJob jobId)
    (chains : ∀ chainId, left.chains chainId → before.DueChain chainId) :
    Board.Path config occasion before after where
  flows := trail.flows
  jobs jobId due := (trail.jobs jobId due).imp_left (jobs jobId)
  chains chainId due := (trail.chains chainId due).imp_left (chains chainId)
  items := trail.items

/-- A trail goes on; what is left afterwards is given by the second part. -/
theorem Board.Trail.trans {later : Targets} (trail : Board.Trail config occasion left before middle)
    (rest : Board.Trail config occasion later middle after)
    (jobs : ∀ jobId, later.jobs jobId → middle.DueJob jobId)
    (chains : ∀ chainId, later.chains chainId → middle.DueChain chainId) :
    Board.Trail config occasion ⟨fun jobId => left.jobs jobId ∧ later.jobs jobId,
      fun chainId => left.chains chainId ∧ later.chains chainId⟩ before after where
  flows := trail.flows.trans rest.flows
  jobs jobId due := by
    rcases rest.jobs jobId due with still | failed
    · refine (trail.jobs jobId (jobs jobId still)).imp (⟨·, still⟩) (rest.flows.log.subset ·)
    · exact .inr failed
  chains chainId due := by
    rcases rest.chains chainId due with still | unsaved
    · refine (trail.chains chainId (chains chainId still)).imp (⟨·, still⟩) ?_
      rintro ⟨other, unsaved⟩
      exact ⟨other, rest.flows.log.subset unsaved⟩
    · exact .inr unsaved
  items := rest.items.trans trail.items

/-- A path leaves nothing new. -/
theorem Board.Trail.along (trail : Board.Trail config occasion left before middle)
    (path : Board.Path config occasion middle after) : Board.Trail config occasion left before after where
  flows := trail.flows.trans path.flows
  jobs jobId due := by
    rcases path.jobs jobId due with still | failed
    · exact (trail.jobs jobId still).imp_right (path.flows.log.subset ·)
    · exact .inr failed
  chains chainId due := by
    rcases path.chains chainId due with still | unsaved
    · refine (trail.chains chainId still).imp_right ?_
      rintro ⟨other, unsaved⟩
      exact ⟨other, path.flows.log.subset unsaved⟩
    · exact .inr unsaved
  items := path.items.trans trail.items

/-- Less is left. -/
theorem Board.Trail.mono {fewer : Targets} (trail : Board.Trail config occasion left before after)
    (jobs : ∀ jobId, left.jobs jobId → fewer.jobs jobId)
    (chains : ∀ chainId, left.chains chainId → fewer.chains chainId) :
    Board.Trail config occasion fewer before after where
  flows := trail.flows
  jobs jobId due := (trail.jobs jobId due).imp_left (jobs jobId)
  chains chainId due := (trail.chains chainId due).imp_left (chains chainId)
  items := trail.items

/-- Steps leave due what they were allowed to end. -/
theorem Board.Steps.trail {target : Targets} (steps : Board.Steps target none before after)
    (orderly : before.Orderly) :
    Board.Trail config occasion ⟨fun jobId => before.DueJob jobId ∨ target.jobs jobId,
      fun chainId => before.DueChain chainId ∨ target.chains chainId⟩ before after where
  flows := steps.flows
  jobs jobId due := by
    rcases steps.due_job orderly due with earlier | allowed | failed
    · exact .inl (.inl earlier)
    · exact .inl (.inr allowed)
    · exact .inr failed
  chains chainId due := .inl (steps.due_chain due)
  items := steps.apart.items.le

end Trails

section Scripts

variable {resume : PendingScriptRun → Sched Unit} {rounds : ℕ}

/-- A script that goes on follows a path, if it is given more rounds than there are items. -/
def Resumes (config : Config) (occasion : Occasion) (rounds : ℕ)
    (resume : PendingScriptRun → Sched Unit) : Prop :=
  ∀ (state : SchedulerState) (script : PendingScriptRun) (outer : List RunningScript),
    (state.board none (⟨script, .idle⟩ :: outer)).Orderly →
    script.items.length + state.openItems < rounds →
    Ensures (resume script) state fun _ after =>
      Board.Path config occasion (state.board none (⟨script, .idle⟩ :: outer)) (after.board none outer)

variable (resumes : Resumes config occasion rounds resume) {scriptId : ScriptId}
variable {script : PendingScriptRun} {result : ScriptItemResult}

/-- Nobody waits for the given job or chain any more. -/
def SchedulerState.forgo (state : SchedulerState) : ScriptItemResult → SchedulerState
  | .job jobId => { state with pendingScriptJobs := state.pendingScriptJobs.erase jobId }
  | .chain chainId => { state with
      completedChains := state.completedChains.erase chainId
      pendingScriptChains := state.pendingScriptChains.erase chainId }
  | .cron _ | .message => state

/-- A script is taken because what it waits for has ended. -/
def SchedulerState.take (state : SchedulerState) (scriptId : ScriptId) (result : ScriptItemResult) :
    SchedulerState :=
  { state.forgo result with pendingScripts := state.pendingScripts.erase scriptId }

def SchedulerState.noted (state : SchedulerState) (events : List SchedulerEvent) : SchedulerState :=
  { state with log := state.log ++ events }

/-- What else is due once nobody waits for the given job or chain. -/
def Board.dueBut (board : Board) (result : ScriptItemResult) : Targets where
  jobs jobId := board.DueJob jobId ∧ result ≠ .job jobId
  chains chainId := board.DueChain chainId ∧ result ≠ .chain chainId

theorem SchedulerState.forgo_jobs (state : SchedulerState) (result : ScriptItemResult) :
    (state.forgo result).jobs = state.jobs ∧ (state.forgo result).chains = state.chains ∧
      (state.forgo result).pendingScripts = state.pendingScripts := by
  cases result <;> exact ⟨rfl, rfl, rfl⟩

/-- A link that has been removed is not due. -/
theorem due_job_forgone {result : ScriptItemResult} {jobId : JobId}
    (due : ((state.forgo result).board none running).DueJob jobId) :
    ((state.board none running).dueBut result).jobs jobId := by
  obtain ⟨linked, past⟩ := due
  cases result with
  | job ended =>
    obtain ⟨apart, member⟩ := Finset.mem_erase.mp linked
    exact ⟨⟨member, past⟩, by simpa using Ne.symm apart⟩
  | _ => exact ⟨⟨linked, past⟩, by simp⟩

theorem due_chain_forgone {result : ScriptItemResult} {chainId : ChainId}
    (due : ((state.forgo result).board none running).DueChain chainId) :
    ((state.board none running).dueBut result).chains chainId := by
  obtain ⟨linked, gone⟩ := due
  cases result with
  | chain ended =>
    obtain ⟨apart, member⟩ := Finset.mem_erase.mp linked
    exact ⟨⟨member, gone⟩, by simpa using Ne.symm apart⟩
  | _ => exact ⟨⟨linked, gone⟩, by simp⟩

theorem openItems_erase (found : state.pendingScripts.get scriptId = some script) :
    SchedulerState.openItems { state with pendingScripts := state.pendingScripts.erase scriptId } +
      script.items.length = state.openItems := by
  have split := state.pendingScripts.total_erase (fun pending => pending.items.length) scriptId
  rw [found] at split
  exact split

variable {occasion} {exitCode : ℤ} {later : PendingScriptRun}
variable (link : (state.board none running).Awaits scriptId result)
variable (found : state.pendingScripts.get scriptId = some script)

include found in
/-- A script that is taken brings its items along. -/
theorem items_taken (running : List RunningScript) (same : later.items = script.items)
    (mode : ScriptMode) :
    Board.items (SchedulerState.board
      { state with pendingScripts := state.pendingScripts.erase scriptId } none
        (⟨later, mode⟩ :: running)) = (state.board none running).items := by
  have weight := openItems_erase found
  simp only [Board.items, SchedulerState.board, List.map_cons, List.sum_cons, same]
  omega

include found in
theorem items_dropped (running : List RunningScript) : Board.items (SchedulerState.board
    { state with pendingScripts := state.pendingScripts.erase scriptId } none running) ≤
      (state.board none running).items := by
  have weight := openItems_erase found
  simp only [Board.items, SchedulerState.board]
  omega

/-- What a complete chain has left is forgotten together with the link to it. -/
theorem forgo_flows {board : Board} {after : SchedulerState} (link : board.Awaits scriptId result)
    (flow : Board.Flow config occasion board
      { ((after.board none running).unlink result) with completedChains := after.completedChains }) :
    Board.Flows config occasion board ((after.forgo result).board none running) := by
  cases result with
  | job jobId => exact .single flow
  | chain chainId =>
    have free : (after.pendingScriptChains.erase chainId).get chainId = none :=
      (Table.get_erase ..).trans (if_pos rfl)
    exact .tail (.single flow) (.forget chainId free)
  | cron cronId => exact link.elim
  | message => exact link.elim

include link in
/-- A link to a script that is gone is removed. -/
theorem unlink_trail (gone : state.pendingScripts.get scriptId = none) :
    Board.Trail config occasion ((state.board none running).dueBut result) (state.board none running)
      ((state.forgo result).board none running) where
  flows := by
    refine forgo_flows link ?_
    have flow : Board.Flow config occasion (state.board none running) _ := .unlink result link gone
    cases result <;> exact flow
  jobs _ due := .inl (due_job_forgone due)
  chains _ due := .inl (due_chain_forgone due)
  items := by cases result <;> exact le_rfl

include link found in
/-- A waiting script goes on. -/
theorem resume_trail (ended : (state.board none running).EndedWith 0 result)
    (same : script.Same later) :
    Board.Trail config occasion ((state.board none running).dueBut result) (state.board none running)
      (((state.take scriptId result).noted
        [.itemEnded script.scriptId script.waitingIndex result 0]).board none
          (⟨later, .idle⟩ :: running)) where
  flows := by
    have flow : Board.Flow config occasion (state.board none running) _ := .resume link found ended same
    cases result with
    | job jobId => exact .single flow
    | chain chainId =>
      have free : (state.pendingScriptChains.erase chainId).get chainId = none :=
        (Table.get_erase ..).trans (if_pos rfl)
      exact .tail (.single flow) (.forget chainId free)
    | cron cronId => exact link.elim
    | message => exact link.elim
  jobs jobId due := by
    refine .inl (due_job_forgone ?_)
    cases result <;> exact due
  chains chainId due := by
    refine .inl (due_chain_forgone ?_)
    cases result <;> exact due
  items := by
    have items := (items_taken found running same.items .idle).le
    cases result <;> exact items

include link found in
/-- A waiting script fails. -/
theorem abort_trail (ended : (state.board none running).EndedWith exitCode result)
    (failed : exitCode ≠ 0) :
    Board.Trail config occasion ((state.board none running).dueBut result) (state.board none running)
      (((state.take scriptId result).noted
        [.itemEnded script.scriptId script.waitingIndex result exitCode,
          .scriptFinished script.scriptId exitCode script.waitingIndex]).board none running) where
  flows := by
    have flow : Board.Flow config occasion (state.board none running) _ := .abort link found ended failed
    cases result with
    | job jobId => exact .single flow
    | chain chainId =>
      have free : (state.pendingScriptChains.erase chainId).get chainId = none :=
        (Table.get_erase ..).trans (if_pos rfl)
      exact .tail (.single flow) (.forget chainId free)
    | cron cronId => exact link.elim
    | message => exact link.elim
  jobs jobId due := by
    refine .inl (due_job_forgone ?_)
    cases result <;> exact due
  chains chainId due := by
    refine .inl (due_chain_forgone ?_)
    cases result <;> exact due
  items := by
    have items := items_dropped found running
    cases result <;> exact items

theorem finishPendingScriptFailed_spec (pending : PendingScriptRun) (exitCode : ℤ) :
    Ensures (finishPendingScriptFailed env pending exitCode) state fun _ after =>
      after = { state with
        question := state.question + 1
        log := state.log ++ [.scriptFinished pending.scriptId exitCode pending.waitingIndex] } := rfl

include resumes link found in
/-- What a script does once the item it waited for has ended. -/
theorem advancePendingScript_trail (ended : (state.board none running).EndedWith exitCode result)
    (scope : Option ScopeHash) (orderly : (state.board none running).Orderly)
    (few : state.openItems < rounds) :
    Ensures (advancePendingScript env resume script result exitCode scope)
      (state.take scriptId result) fun _ after =>
        Board.Trail config occasion ((state.board none running).dueBut result)
          (state.board none running) (after.board none running) := by
  let later : PendingScriptRun :=
    { script with itemScope := scope.getD script.itemScope, lastExitCode := exitCode }
  unfold advancePendingScript
  apply Ensures.modify
  dsimp only
  split
  · rename_i failed
    have trail : Board.Trail config occasion _ (state.board none running) _ :=
      abort_trail link found ended failed
    have asked := trail.along (Board.Path.asks _ 1)
    apply (finishPendingScriptFailed_spec _ _).mono
    rintro _ after rfl
    simpa [SchedulerState.noted, SchedulerState.board] using asked
  · rename_i passed
    obtain rfl : exitCode = 0 := by simpa using passed
    have same : script.Same later := ⟨rfl, rfl, rfl, rfl, rfl, .inl rfl⟩
    have trail : Board.Trail config occasion _ (state.board none running) _ :=
      resume_trail link found ended same
    have weight := openItems_erase found
    have enough : later.items.length + SchedulerState.openItems ((state.take scriptId result).noted
        [.itemEnded script.scriptId script.waitingIndex result 0]) < rounds := by
      rw [← weight, Nat.add_comm] at few
      cases result <;> exact few
    refine (resumes _ later running (orderly.flows trail.flows) enough).mono ?_
    exact fun _ after path => trail.along path

end Scripts

section Waiting

variable {occasion} {resume : PendingScriptRun → Sched Unit} {rounds : ℕ}

/-- Nothing is to be done about a job or chain that is not due. -/
theorem Board.Trail.quiet (board : Board) {result : ScriptItemResult}
    (jobs : ∀ jobId, result = .job jobId → ¬ board.DueJob jobId)
    (chains : ∀ chainId, result = .chain chainId → ¬ board.DueChain chainId) :
    Board.Trail config occasion (board.dueBut result) board board where
  flows := .refl
  jobs jobId due := .inl ⟨due, fun same => jobs jobId same due⟩
  chains chainId due := .inl ⟨due, fun same => chains chainId same due⟩
  items := le_rfl

variable (resumes : Resumes config occasion rounds resume)
variable (orderly : (state.board none running).Orderly) (few : state.openItems < rounds)

include resumes orderly few

/-- The script that waits for a job goes on. -/
theorem advanceScriptOfJob_trail (jobId : JobId) (reportedExitCode : ℤ) :
    Ensures (advanceScriptOfJob env resume jobId reportedExitCode) state fun _ after =>
      Board.Trail config occasion ((state.board none running).dueBut (.job jobId))
        (state.board none running) (after.board none running) := by
  unfold advanceScriptOfJob
  apply Ensures.get
  split
  · rename_i unlinked
    apply Ensures.pure
    apply Board.Trail.quiet
    · rintro other ⟨⟩ ⟨linked, -⟩
      have present := (state.pendingScriptJobs.mem_keys jobId).mp linked
      simp [unlinked] at present
    · rintro other ⟨⟩
  · rename_i scriptId linked
    have link : (state.board none running).Awaits scriptId (.job jobId) := linked
    apply Ensures.modify
    split
    · rename_i gone
      exact unlink_trail link gone
    · rename_i script found
      apply Ensures.modify
      exact advancePendingScript_trail resumes link found ⟨reportedExitCode, rfl⟩ _ orderly few

/-- The script that waits for a complete chain goes on. -/
theorem advanceScriptOfChain_trail (chainId : ChainId) :
    Ensures (advanceScriptOfChain env resume chainId) state fun _ after =>
      Board.Trail config occasion ((state.board none running).dueBut (.chain chainId))
        (state.board none running) (after.board none running) := by
  unfold advanceScriptOfChain
  apply Ensures.get
  split
  · rename_i incomplete
    apply Ensures.pure
    apply Board.Trail.quiet
    · rintro other ⟨⟩
    · rintro other ⟨⟩ ⟨linked, inactive⟩
      have complete := (orderly.scriptChains chainId linked).2.resolve_left inactive
      have present := (state.completedChains.mem_keys chainId).mp complete
      simp [incomplete] at present
  · rename_i completion complete
    apply Ensures.modify
    split
    · rename_i unlinked
      apply Ensures.pure
      have forgotten : Board.Path config occasion (state.board none running) _ :=
        .single (.forget chainId unlinked) (fun _ due => due) (fun _ due => due) le_rfl
      refine Board.Trail.along (Board.Trail.quiet _ ?_ ?_) forgotten
      · rintro other ⟨⟩
      · rintro other ⟨⟩ ⟨linked, -⟩
        have present := (state.pendingScriptChains.mem_keys chainId).mp linked
        simp [unlinked] at present
    · rename_i scriptId linked
      have link : (state.board none running).Awaits scriptId (.chain chainId) := linked
      apply Ensures.modify
      split
      · rename_i gone
        exact unlink_trail link gone
      · rename_i script found
        apply Ensures.modify
        exact advancePendingScript_trail resumes link found ⟨completion.endScope, complete⟩ _ orderly
          few

omit resumes orderly few in
/-- A board that can be reached has no more items to submit. -/
theorem openItems_le {after : SchedulerState}
    (items : (after.board none running).items ≤ (state.board none running).items) :
    after.openItems ≤ state.openItems := by
  simp only [Board.items, SchedulerState.board] at items
  omega

/-- The scripts that wait for the given chains go on. -/
theorem advanceScriptsOfChains_trail (order : List ChainId) :
    Ensures (order.forM (advanceScriptOfChain env resume)) state fun _ after =>
      Board.Trail config occasion ⟨(state.board none running).DueJob,
        fun chainId => (state.board none running).DueChain chainId ∧ chainId ∉ order⟩
        (state.board none running) (after.board none running) := by
  induction order generalizing state with
  | nil => exact (Board.Path.refl _).trail.mono (fun _ due => due) fun _ due => ⟨due, by simp⟩
  | cons chainId order ih =>
    refine Ensures.bind (advanceScriptOfChain_trail resumes orderly few chainId) ?_
    intro _ middle first
    have less := openItems_le first.items
    refine (ih (orderly.flows first.flows) (by omega)).mono ?_
    intro _ after rest
    refine (first.trans rest (fun _ due => due) (fun _ due => due.1)).mono ?_ ?_
    · exact fun jobId due => due.1.1
    · rintro other ⟨⟨due, apart⟩, -, outside⟩
      refine ⟨due, List.not_mem_cons_of_ne_of_not_mem ?_ outside⟩
      rintro rfl
      exact apart rfl

theorem advancePendingScriptsAfterCompletedChains_trail :
    Ensures (advancePendingScriptsAfterCompletedChains env resume) state fun _ after =>
      Board.Trail config occasion ⟨(state.board none running).DueJob, fun _ => False⟩
        (state.board none running) (after.board none running) := by
  unfold advancePendingScriptsAfterCompletedChains
  apply Ensures.get
  apply Ensures.bind (ask_spec _)
  rintro order asked ⟨answer, rfl⟩
  let ready : SchedulerState := { state with question := state.question + 1 }
  have path : Board.Path config occasion (state.board none running) (ready.board none running) :=
    Board.Path.asks _ 1
  refine (advanceScriptsOfChains_trail resumes (path.orderly orderly) few order).mono ?_
  intro _ after trail
  refine (path.trail.trans trail (fun _ due => due) (fun _ due => due.1)).mono
    (fun _ due => due.1) ?_
  rintro chainId ⟨⟨linked, inactive⟩, -, outside⟩
  have complete := (orderly.scriptChains chainId linked).2.resolve_left inactive
  refine outside ?_
  rw [answer, (env.walk_perm _ _).mem_iff, Finset.mem_sort, Finset.mem_filter]
  exact ⟨linked, (state.completedChains.mem_keys chainId).mp complete⟩

/-- After a job has ended, the scripts that wait for it or for its chain go on. -/
theorem advancePendingScriptsAfterTerminalJob_trail (jobId : JobId) (reportedExitCode : ℤ) :
    Ensures (advancePendingScriptsAfterTerminalJob env resume jobId reportedExitCode) state
      fun _ after => Board.Trail config occasion
        ⟨fun other => (state.board none running).DueJob other ∧ other ≠ jobId, fun _ => False⟩
        (state.board none running) (after.board none running) := by
  unfold advancePendingScriptsAfterTerminalJob
  refine Ensures.bind (advanceScriptOfJob_trail resumes orderly few jobId reportedExitCode) ?_
  intro _ middle first
  have less := openItems_le first.items
  refine (advancePendingScriptsAfterCompletedChains_trail resumes (orderly.flows first.flows)
    (by omega)).mono ?_
  intro _ after rest
  refine (first.trans rest (fun _ due => due) (fun _ due => due.elim)).mono ?_ (fun _ due => due.2)
  rintro other ⟨⟨due, apart⟩, -⟩
  exact ⟨due, fun same => apart (by rw [same])⟩

end Waiting

/-- The program takes the board along a path. -/
abbrev Walks (config : Config) (occasion : Occasion) (running : List RunningScript)
    {α : Type} (program : Sched α) (state : SchedulerState) : Prop :=
  Ensures program state fun _ after =>
    Board.Path config occasion (state.board none running) (after.board none running)

section Ends

variable {occasion} {resume : PendingScriptRun → Sched Unit} {rounds : ℕ}
variable (resumes : Resumes config occasion rounds resume)
variable (orderly : (state.board none running).Orderly) (few : state.openItems < rounds)

include resumes orderly few

/-- A user ends a job. -/
theorem applyUserTerminalJobUpdate_walks {update : TerminalStateUpdate} (jobId : JobId)
    (ended : update.status.isTerminal) (advances : update.advanceChain = true)
    (proper : update.status = .done ↔ update.exitCode = 0) :
    Walks config occasion running (applyUserTerminalJobUpdate env resume jobId update) state := by
  let target : Targets := ⟨(· = jobId), fun chainId => ∃ index,
    state.jobToChain.get jobId = some (chainId, index)⟩
  unfold applyUserTerminalJobUpdate
  refine endAndAdvance_steps running target none ended advances proper (.inl rfl)
    (fun chainId index located => ⟨index, located⟩) .refl ?_
  intro outcome error advanced path
  refine Ensures.bind (retryPendingResourceAdmissions_steps running target none path) ?_
  intro _ retried path
  have trail : Board.Trail config occasion _ (state.board none running) (retried.board none running) :=
    path.trail orderly
  have less := openItems_le trail.items
  refine Ensures.bind (advancePendingScriptsAfterTerminalJob_trail resumes
    (orderly.flows trail.flows) (by omega) jobId update.exitCode) ?_
  intro _ after rest
  apply Ensures.pure
  refine (trail.trans rest (fun _ due => due.1) (fun _ due => due.elim)).path ?_ ?_
  · rintro other ⟨earlier | same, -, apart⟩
    · exact earlier
    · exact absurd same apart
  · exact fun chainId due => due.2.elim

omit resumes few in
/-- A program walks after it has only asked questions. -/
theorem Walks.asking {α β : Type} {program : Sched α} {next : α → Sched β}
    (asks : Ensures program state fun _ after => AsksOnly state after)
    (rest : ∀ (answer : α) (after : SchedulerState), (after.board none running).Orderly →
      after.openItems = state.openItems → Walks config occasion running (next answer) after) :
    Walks config occasion running (program >>= next) state := by
  refine asks.bind ?_
  intro answer after reached
  have path : Board.Path config occasion (state.board none running) (after.board none running) :=
    reached.path
  obtain ⟨count, rfl⟩ := reached
  exact (rest answer _ (path.orderly orderly) rfl).mono fun _ _ => path.trans

omit resumes orderly few in
theorem cancelProcessJob_asks (jobId : JobId) :
    Ensures (cancelProcessJob env jobId) state fun _ after => AsksOnly state after :=
  cancelProcessJob_spec.mono fun _ _ reached => ⟨1, reached⟩

/-- The job is cancelled once its process is. -/
theorem cancelledByUser_walks (jobId : JobId) :
    Walks config occasion running (do
      match ← applyUserTerminalJobUpdate env resume jobId
          ⟨.cancelled .user, exitCodeUnavailable, none, true⟩ with
      | some error => return .error error
      | none => return .ok () : Sched (Except String Unit)) state := by
  refine Ensures.bind (applyUserTerminalJobUpdate_walks resumes orderly few jobId rfl rfl
    (by simp [exitCodeUnavailable])) ?_
  intro error after path
  cases error <;> exact path

theorem cancelJobExecution_walks (jobId : JobId) :
    Walks config occasion running (cancelJobExecution env resume jobId) state := by
  unfold cancelJobExecution
  apply Ensures.get
  split
  · split <;> exact .refl _
  · rename_i entry found
    split
    · exact .refl _
    · dsimp only
      split
      · refine Walks.asking orderly (cancelProcessJob_asks jobId) ?_
        intro answer after orderly same
        cases answer with
        | error error => exact .refl _
        | ok => exact cancelledByUser_walks resumes orderly (same ▸ few) jobId
      · exact cancelledByUser_walks resumes orderly few jobId

/-- All leaves of a chain are cancelled. -/
theorem cancelChainExecution_walks (chainId : ChainId) :
    Walks config occasion running (cancelChainExecution env resume chainId) state := by
  let target : Targets := ⟨fun _ => False, (· = chainId)⟩
  unfold cancelChainExecution
  apply Ensures.get
  split
  · split <;> exact .refl _
  · rename_i chain active
    have began : Board.Step target none (state.board none running)
        (state.board (some ⟨chainId, (flattenLeaves chain.node).map FlatLeaf.index, []⟩) running) :=
      .begin chainId chain active rfl
    refine Ensures.bind (processChainAdvance_steps running target none _ rfl ?_) ?_
    · exact fun _ _ => ⟨by simp, by simp⟩
    · rintro outcome cancelled ⟨worked, -⟩
      have steps : Board.Steps target none (state.board none running) (cancelled.board none running) :=
        .head began worked
      have trail : Board.Trail config occasion _ (state.board none running)
          (cancelled.board none running) := steps.trail orderly
      have less := openItems_le trail.items
      split
      · rename_i error _
        apply Ensures.modify
        refine ⟨trail.flows.tail (.unsaved chainId), ?_, ?_, trail.items⟩
        · intro jobId due
          refine (trail.jobs jobId due).imp ?_ (List.mem_append_left _ ·)
          exact fun left => left.resolve_right id
        · intro other _
          exact .inr ⟨chainId, List.mem_append_right _ (List.mem_singleton_self _)⟩
      · refine Ensures.bind (advancePendingScriptsAfterCompletedChains_trail resumes
          (orderly.flows trail.flows) (by omega)) ?_
        intro _ after rest
        apply Ensures.pure
        refine (trail.trans rest (fun _ due => due) (fun _ due => due.elim)).path ?_ ?_
        · exact fun jobId due => due.1.resolve_right id
        · exact fun other due => due.2.elim

theorem cancelScriptItem_walks (currentJob currentChain : Option ℕ) :
    Walks config occasion running (cancelScriptItem env resume currentJob currentChain) state := by
  unfold cancelScriptItem
  split
  · exact cancelJobExecution_walks resumes orderly few _
  · exact cancelChainExecution_walks resumes orderly few _
  · exact .refl _

omit resumes orderly few in
theorem ownedBy_spec {links : Table ℕ ScriptId} {scriptId : ScriptId} {key : ℕ}
    (owned : ownedBy links scriptId = some key) : links.get key = some scriptId := by
  unfold ownedBy at owned
  have member := List.mem_of_head? owned
  rw [Finset.mem_sort, Finset.mem_filter] at member
  simpa using member.2

/-- A script is stopped; the item it waits for is cancelled without the script going on. -/
theorem cancelScriptExecution_walks (scriptId : ScriptId) :
    Walks config occasion running (cancelScriptExecution env resume scriptId) state := by
  unfold cancelScriptExecution
  apply Ensures.get
  split
  · split <;> exact .refl _
  · rename_i script found
    let stopped : SchedulerState := { state with
      pendingScripts := state.pendingScripts.erase scriptId
      pendingScriptJobs := (ownedBy state.pendingScriptJobs scriptId).elim state.pendingScriptJobs
        state.pendingScriptJobs.erase
      pendingScriptChains := (ownedBy state.pendingScriptChains scriptId).elim
        state.pendingScriptChains state.pendingScriptChains.erase
      log := state.log ++ [.scriptStopped scriptId] }
    have jobLinks : stopped.pendingScriptJobs.keys ⊆ state.pendingScriptJobs.keys := by
      dsimp only [stopped]
      cases ownedBy state.pendingScriptJobs scriptId with
      | none => exact Finset.Subset.refl _
      | some jobId => exact Finset.erase_subset _ _
    have chainLinks : stopped.pendingScriptChains.keys ⊆ state.pendingScriptChains.keys := by
      dsimp only [stopped]
      cases ownedBy state.pendingScriptChains scriptId with
      | none => exact Finset.Subset.refl _
      | some chainId => exact Finset.erase_subset _ _
    have stop : Board.Path config occasion (state.board none running)
        (stopped.board none (⟨script, .stopped⟩ :: running)) := by
      refine .single (.stop (ownedBy state.pendingScriptJobs scriptId)
        (ownedBy state.pendingScriptChains scriptId) found (fun _ => ownedBy_spec)
        fun _ => ownedBy_spec) ?_ ?_ (items_taken found running rfl .stopped).le
      · exact fun jobId due => ⟨jobLinks due.1, due.2⟩
      · exact fun chainId due => ⟨chainLinks due.1, due.2⟩
    have less : stopped.openItems + script.items.length = state.openItems := openItems_erase found
    apply Ensures.modify
    apply Ensures.modify
    refine Ensures.bind (cancelScriptItem_walks resumes (stop.orderly orderly) (by omega) _ _) ?_
    intro result cancelled path
    apply Ensures.bind (finishPendingScriptFailed_spec script exitCodeUnavailable)
    rintro _ reported rfl
    apply Ensures.pure
    have waited := (stop.trans path).trans (Board.Path.asks _ 1)
    refine waited.trans (.single (.report rfl) (fun _ due => due) (fun _ due => due) ?_)
    simp only [Board.items, SchedulerState.board, List.map_cons, List.sum_cons,
      SchedulerState.openItems]
    omega

end Ends

section Commands

variable {resume : PendingScriptRun → Sched Unit} {rounds : ℕ}
variable (resumes : Resumes config occasion rounds resume)
variable (orderly : (state.board none running).Orderly) (few : state.openItems < rounds)

include resumes orderly few

theorem endByUser_serves (jobId : JobId) {status : JobStatus} (ended : status.isTerminal)
    (stopped : status ≠ .done) :
    Serves config occasion running retained (endByUser env resume jobId status) state := by
  unfold endByUser
  refine Ensures.bind (applyUserTerminalJobUpdate_walks resumes orderly few jobId ended rfl
    (by simp [stopped, exitCodeUnavailable])) ?_
  intro error after path
  cases error with
  | some error => exact ⟨path, .error ..⟩
  | none => exact ⟨path, .of_plain rfl⟩

/-- A job is ended by a user once its process has been asked to stop. -/
theorem endByUser_asked {program : Sched (Except String Unit)} (jobId : JobId) {status : JobStatus}
    (ended : status.isTerminal) (stopped : status ≠ .done)
    (asks : Ensures program state fun _ after => AsksOnly state after) :
    Serves config occasion running retained (do
      match ← program with
      | .error error => return errorResponse "INTERNAL" error
      | .ok () => endByUser env resume jobId status) state := by
  refine asks.bind ?_
  intro answer after reached
  have path : Board.Path config occasion (state.board none running) (after.board none running) :=
    reached.path
  obtain ⟨count, rfl⟩ := reached
  cases answer with
  | error error => exact ⟨path, .error ..⟩
  | ok =>
    exact (endByUser_serves occasion resumes (path.orderly orderly) few jobId ended
      stopped).after occasion path

theorem killJob_serves (id : String) (jobId : JobId) :
    Serves config occasion running retained (killJob env resume id jobId) state := by
  unfold killJob
  apply Ensures.get
  split
  · exact Serves.error occasion ..
  · split
    · exact endByUser_asked occasion resumes orderly few jobId rfl (by simp) (ask_only _)
    · exact Serves.error occasion ..

theorem handleKill_serves (id : String) :
    Serves config occasion running retained (handleKill env resume id) state := by
  unfold handleKill
  split
  · exact killJob_serves occasion resumes orderly few id _
  · exact removeKnownCron_serves occasion id _
  · exact Serves.error occasion ..

theorem handleKillJob_serves (id : String) :
    Serves config occasion running retained (handleKillJob env resume id) state := by
  unfold handleKillJob
  split
  · exact Serves.error occasion ..
  · exact killJob_serves occasion resumes orderly few id _

theorem handleCancel_serves (id : String) :
    Serves config occasion running retained (handleCancel env resume id) state := by
  unfold handleCancel
  split
  · exact Serves.error occasion ..
  · rename_i jobId _
    apply Ensures.get
    split
    · exact Serves.error occasion ..
    · split
      · exact Serves.error occasion ..
      · dsimp only
        split
        · exact endByUser_asked occasion resumes orderly few jobId rfl (by simp) (ask_only _)
        · exact endByUser_serves occasion resumes orderly few jobId rfl (by simp)

theorem handleCancelExecution_serves (id : String) :
    Serves config occasion running retained (handleCancelExecution env resume id) state := by
  unfold handleCancelExecution
  split
  · exact Serves.error occasion ..
  · rename_i cancel chosen
    have walks : Walks config occasion running cancel state := by
      unfold cancelTarget at chosen
      split at chosen
      · cases chosen
        exact cancelJobExecution_walks resumes orderly few _
      · cases chosen
        exact cancelChainExecution_walks resumes orderly few _
      · cases chosen
        exact cancelScriptExecution_walks resumes orderly few _
      · cases chosen
    refine walks.bind ?_
    intro answer after path
    cases answer with
    | ok => exact ⟨path, .of_plain rfl⟩
    | error message =>
      dsimp only
      split <;> exact ⟨path, .error ..⟩

theorem dispatchCommand_serves (command : SingleCommand) (clientId : ClientId)
    (context : CommandExecutionContext) (requester : Option SessionId)
    (owner : (state.board none running).ActsFor requester)
    (noted : .command command requester state.jobs state.sessions ∈ state.log)
    (source : commandStartsExecution (.single command) →
      occasion.isOpen ∨ (state.board none running).Submits)
    (seen : ∀ target session, sessionOwnedTargetForCommand command = some target →
      requester = some session →
        ∃ finished, targetOwner state finished target = some (some session)) :
    Serves config occasion running context.scopeOverride.isSome
      (dispatchCommand env config resume command clientId context requester) state := by
  unfold dispatchCommand
  split
  · exact handleRun_serves occasion clientId requester orderly owner (source rfl) _ _ context
  · exact handleCron_serves occasion clientId requester owner _ _ _ context
  · exact handleKill_serves occasion resumes orderly few _
  · exact handleKillJob_serves occasion resumes orderly few _
  · exact handleCancelExecution_serves occasion resumes orderly few _
  · exact handleRemoveCron_serves occasion _
  · exact handleCancel_serves occasion resumes orderly few _
  · exact handlePause_serves occasion _
  · exact handleResume_serves occasion _
  · refine handleRetry_serves occasion requester orderly owner (source rfl) _ noted ?_
    intro jobId entry session named found asker
    obtain ⟨_, owned⟩ := seen (.job jobId) session (by simp [sessionOwnedTargetForCommand, named]) asker
    simpa [targetOwner, found] using owned
  · exact Serves.error occasion ..
  · exact handleQuery_serves occasion _ clientId requester

/-- A command of a client or of a script under way. -/
theorem handleCommandWithScope_serves (command : SingleCommand) (clientId : ClientId)
    (context : CommandExecutionContext)
    (owner : ∀ sessionId, context.sessionId = some sessionId →
      (state.board none running).ActsFor (some sessionId))
    (source : commandStartsExecution (.single command) → occasion.isOpen ∨
      ∃ script outer earlier index, running = ⟨script, .busy⟩ :: outer ∧
        state.log = earlier ++ [.itemSubmitted script.scriptId index]) :
    Serves config occasion running context.scopeOverride.isSome
      (handleCommandWithScope env config resume command clientId context) state := by
  let requester := context.sessionId.or (state.namedSessionIdForClient clientId)
  have acts : (state.board none running).ActsFor requester := by
    cases named : context.sessionId with
    | none =>
      refine .inl ⟨clientId, ?_⟩
      simp [requester, named, SchedulerState.board]
    | some sessionId => simpa [requester, named] using owner sessionId named
  let noted : SchedulerState := { state with
    log := state.log ++ [.command command requester state.jobs state.sessions] }
  have path : Board.Path config occasion (state.board none running) (noted.board none running) :=
    .single (.command command requester) (fun _ due => due) (fun _ due => due) le_rfl
  have logged : .command command requester noted.jobs noted.sessions ∈ noted.log :=
    List.mem_append_right _ (List.mem_singleton_self _)
  have sourced (starts : commandStartsExecution (.single command)) :
      occasion.isOpen ∨ (noted.board none running).Submits := by
    refine (source starts).imp_right ?_
    rintro ⟨script, outer, earlier, index, under, submitted⟩
    refine ⟨script, outer, earlier, index, command, requester, state.jobs, state.sessions, under, ?_⟩
    simp [noted, SchedulerState.board, submitted]
  unfold handleCommandWithScope
  apply Ensures.get
  apply Ensures.modify
  split
  · rename_i free
    exact (dispatchCommand_serves occasion resumes (path.orderly orderly) few command clientId context
      requester acts logged sourced (by simp [free])).after occasion path
  · rename_i owned named
    have asked : Ensures (authorizeSessionOwnedTarget env requester owned) noted fun allowed after =>
        after = { noted with question := noted.question + 1 } ∧ (allowed → ∀ session,
          requester = some session → ∃ finished, targetOwner after finished owned = some (some session)) := by
      refine ⟨rfl, fun allowed session asker => ⟨env.finishedScriptOwner noted.question, ?_⟩⟩
      rw [asker] at allowed
      exact of_decide_eq_true allowed
    refine asked.bind ?_
    rintro allowed _ ⟨rfl, seen⟩
    have path := path.trans (Board.Path.asks _ 1)
    split
    · rename_i granted
      refine (dispatchCommand_serves occasion resumes (path.orderly orderly) few command clientId context
        requester acts logged sourced ?_).after occasion path
      intro target session chosen asker
      cases named.symm.trans chosen
      exact seen granted session asker
    · exact ⟨path, .error ..⟩

end Commands

end CueShell
