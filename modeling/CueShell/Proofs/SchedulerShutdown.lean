import CueShell.Proofs.SchedulerDrain

/-! # The end of the loop

The shutdown ends jobs, takes chains and scripts off their tables and starts nothing. So every run is a
sequence of turns, which the shutdown may follow.
-/

namespace CueShell

variable {env : Env} {config : Config} {state : SchedulerState}

section Shutdown

/-- What the end of the loop may change. -/
structure Halts (before after : SchedulerState) : Prop where
  log : ∃ events, after.log = before.log ++ events ∧ ∀ event ∈ events, event.isQuiet
  nextJob : after.nextJob = before.nextJob
  nextChain : after.nextChain = before.nextChain
  jobs : ∀ jobId entry, after.jobs.get jobId = some entry →
    ∃ earlier, before.jobs.get jobId = some earlier ∧ entry.sessionId = earlier.sessionId ∧
      (earlier.status.isTerminal → entry.status.isTerminal)
  chains : ∀ chainId chain, after.chains.get chainId = some chain →
    ∃ earlier, before.chains.get chainId = some earlier ∧ chain.sessionId = earlier.sessionId
  scripts : ∀ scriptId script, after.pendingScripts.get scriptId = some script →
    before.pendingScripts.get scriptId = some script
  parked : after.pendingResource = before.pendingResource
  sessions : after.sessions = before.sessions
  crons : after.crons = before.crons

/-- What neither the log nor the tables of jobs, chains and scripts show. -/
theorem Halts.same {before after : SchedulerState} (log : after.log = before.log)
    (nextJob : after.nextJob = before.nextJob) (nextChain : after.nextChain = before.nextChain)
    (jobs : after.jobs = before.jobs) (chains : after.chains = before.chains)
    (scripts : after.pendingScripts = before.pendingScripts)
    (parked : after.pendingResource = before.pendingResource)
    (sessions : after.sessions = before.sessions) (crons : after.crons = before.crons) :
    Halts before after where
  log := ⟨[], by rw [log, List.append_nil], by simp⟩
  nextJob := nextJob
  nextChain := nextChain
  jobs _ entry found := ⟨entry, jobs ▸ found, rfl, id⟩
  chains _ chain found := ⟨chain, chains ▸ found, rfl⟩
  scripts _ _ found := scripts ▸ found
  parked := parked
  sessions := sessions
  crons := crons

theorem Halts.refl (state : SchedulerState) : Halts state state :=
  .same rfl rfl rfl rfl rfl rfl rfl rfl rfl

theorem Halts.trans {first middle last : SchedulerState} (start : Halts first middle)
    (rest : Halts middle last) : Halts first last where
  log := by
    obtain ⟨events, log, quiet⟩ := start.log
    obtain ⟨more, further, silent⟩ := rest.log
    refine ⟨events ++ more, by rw [further, log, List.append_assoc], ?_⟩
    intro event member
    exact (List.mem_append.mp member).elim (quiet event) (silent event)
  nextJob := rest.nextJob.trans start.nextJob
  nextChain := rest.nextChain.trans start.nextChain
  jobs jobId entry found := by
    obtain ⟨between, known, owner, ended⟩ := rest.jobs jobId entry found
    obtain ⟨earlier, present, first, past⟩ := start.jobs jobId between known
    exact ⟨earlier, present, owner.trans first, fun terminal => ended (past terminal)⟩
  chains chainId chain found := by
    obtain ⟨between, known, owner⟩ := rest.chains chainId chain found
    obtain ⟨earlier, present, first⟩ := start.chains chainId between known
    exact ⟨earlier, present, owner.trans first⟩
  scripts scriptId script found := start.scripts scriptId script (rest.scripts scriptId script found)
  parked := rest.parked.trans start.parked
  sessions := rest.sessions.trans start.sessions
  crons := rest.crons.trans start.crons

/-- Statuses of jobs become terminal. -/
theorem Halts.of_jobs {jobs : Table JobId JobEntry}
    (ended : ∀ jobId entry, jobs.get jobId = some entry → ∃ earlier,
      state.jobs.get jobId = some earlier ∧ entry.sessionId = earlier.sessionId ∧
        (earlier.status.isTerminal → entry.status.isTerminal)) :
    Halts state { state with jobs := jobs } where
  log := ⟨[], (List.append_nil _).symm, by simp⟩
  nextJob := rfl
  nextChain := rfl
  jobs := ended
  chains _ chain found := ⟨chain, found, rfl⟩
  scripts _ _ found := found
  parked := rfl
  sessions := rfl
  crons := rfl

/-- Leaves are marked and chains leave the table. -/
theorem Halts.of_chains {chains : Table ChainId ChainState} {jobToChain : Table JobId (ChainId × ℕ)}
    (known : ∀ chainId chain, chains.get chainId = some chain → ∃ earlier,
      state.chains.get chainId = some earlier ∧ chain.sessionId = earlier.sessionId) :
    Halts state { state with chains := chains, jobToChain := jobToChain } where
  log := ⟨[], (List.append_nil _).symm, by simp⟩
  nextJob := rfl
  nextChain := rfl
  jobs _ entry found := ⟨entry, found, rfl, id⟩
  chains := known
  scripts _ _ found := found
  parked := rfl
  sessions := rfl
  crons := rfl

theorem Halts.note {events : List SchedulerEvent} (quiet : ∀ event ∈ events, event.isQuiet) :
    Halts state { state with log := state.log ++ events } where
  log := ⟨events, rfl, quiet⟩
  nextJob := rfl
  nextChain := rfl
  jobs _ entry found := ⟨entry, found, rfl, id⟩
  chains _ chain found := ⟨chain, found, rfl⟩
  scripts _ _ found := found
  parked := rfl
  sessions := rfl
  crons := rfl

theorem Halts.asks (state : SchedulerState) :
    Halts state { state with question := state.question + 1 } :=
  .same rfl rfl rfl rfl rfl rfl rfl rfl rfl

theorem abortLeaf_halts (chainId : ChainId) (index : ℕ) (jobId : Option JobId) :
    Ensures (abortLeaf chainId index jobId) state fun _ after => Halts state after := by
  let marked : SchedulerState := { state with chains := state.chains.modify chainId fun chain =>
    { chain with leafStatus := Function.update chain.leafStatus index (some .cancelled) } }
  have leaf : Halts state marked := by
    refine Halts.of_chains fun other chain found => ?_
    rw [Table.get_modify] at found
    split at found
    · rename_i same
      obtain ⟨earlier, known, rfl⟩ := Option.map_eq_some_iff.mp found
      exact ⟨earlier, same ▸ known, rfl⟩
    · exact ⟨chain, found, rfl⟩
  unfold abortLeaf
  apply Ensures.modify
  cases jobId with
  | none => exact leaf
  | some jobId =>
    refine leaf.trans (Halts.of_jobs ?_)
    intro other entry found
    rw [Table.get_modify] at found
    split at found
    · rename_i same
      obtain ⟨earlier, known, rfl⟩ := Option.map_eq_some_iff.mp found
      exact ⟨earlier, same ▸ known, rfl, fun _ => rfl⟩
    · exact ⟨entry, found, rfl, id⟩

theorem shutdownLeaf_halts (chainId : ChainId) (index : ℕ) :
    Ensures (shutdownLeaf env chainId index) state fun _ after => Halts state after := by
  unfold shutdownLeaf
  apply Ensures.get
  split
  · exact .refl state
  · split
    · apply Ensures.bind (ask_spec _)
      rintro answer _ ⟨-, rfl⟩
      split
      · exact .asks state
      · refine Ensures.bind (abortLeaf_halts chainId index _) ?_
        exact fun _ after halts => (Halts.asks state).trans halts
    · refine Ensures.bind (abortLeaf_halts chainId index _) ?_
      exact fun _ after halts => halts
    · exact .refl state

theorem shutdownLeaves_halts (chainId : ChainId) (indices : List ℕ) :
    Ensures (shutdownLeaves env chainId indices) state fun _ after => Halts state after := by
  induction indices generalizing state with
  | nil => exact .refl state
  | cons index rest ih =>
    refine Ensures.bind (shutdownLeaf_halts chainId index) ?_
    intro stopped middle first
    refine Ensures.bind ih ?_
    exact fun _ after more => first.trans more

theorem shutdownChain_halts (chainId : ChainId) :
    Ensures (shutdownChain env chainId) state fun _ after => Halts state after := by
  unfold shutdownChain
  apply Ensures.get
  split
  · exact .refl state
  · apply Ensures.bind (ask_spec _)
    rintro order _ ⟨-, rfl⟩
    refine Ensures.bind (shutdownLeaves_halts chainId order) ?_
    intro stopped middle halts
    apply Ensures.modify
    refine ((Halts.asks state).trans halts).trans (Halts.of_chains fun other chain found => ?_)
    rw [Table.get_erase] at found
    split at found
    · cases found
    · exact ⟨chain, found, rfl⟩

theorem shutdownChains_halts (chainIds : List ChainId) :
    Ensures (shutdownChains env chainIds) state fun _ after => Halts state after := by
  induction chainIds generalizing state with
  | nil => exact .refl state
  | cons chainId rest ih =>
    refine Ensures.bind (shutdownChain_halts chainId) ?_
    intro stopped middle first
    refine Ensures.bind ih ?_
    exact fun _ after more => first.trans more

theorem killOpenJobs_halts :
    Ensures (killOpenJobs env) state fun _ after => Halts state after := by
  unfold killOpenJobs
  apply Ensures.get
  apply Ensures.bind (ask_spec _)
  rintro order _ ⟨-, rfl⟩
  apply Ensures.modify
  refine (Halts.asks state).trans (Halts.of_jobs ?_)
  intro jobId entry found
  rw [Table.get_mapValues] at found
  obtain ⟨earlier, known, rfl⟩ := Option.map_eq_some_iff.mp found
  refine ⟨earlier, known, ?_, fun terminal => ?_⟩
  · split <;> rfl
  · rw [if_pos terminal]
    exact terminal

theorem persistStopped_halts (jobId : JobId) :
    Ensures (persistStopped env jobId) state fun _ after => Halts state after := by
  have stored (history : Table JobId JobStatus) (question : ℕ) :
      Halts state { state with history := history, question := question } :=
    .same rfl rfl rfl rfl rfl rfl rfl rfl rfl
  unfold persistStopped
  apply Ensures.get
  split
  · exact .refl state
  · rename_i entry found
    refine Ensures.bind (persistJobEntry_spec entry.status) ?_
    rintro error after (rfl | rfl)
    · exact stored _ _
    · exact stored _ _

theorem failPendingScriptsOnShutdown_halts :
    Ensures (failPendingScriptsOnShutdown env) state fun _ after => Halts state after := by
  unfold failPendingScriptsOnShutdown
  apply Ensures.get
  apply Ensures.modify
  have cleared : (fun after => Halts state after) { state with
      pendingScripts := .empty
      pendingScriptJobs := .empty
      pendingScriptChains := .empty
      completedChains := .empty } :=
    ⟨⟨[], (List.append_nil _).symm, by simp⟩, rfl, rfl, fun _ entry found => ⟨entry, found, rfl, id⟩,
      fun _ chain found => ⟨chain, found, rfl⟩, nofun, rfl, rfl, rfl⟩
  refine Ensures.forM cleared ?_
  intro script _ before halts
  apply Ensures.modify
  unfold finishPendingScriptFailed
  apply Ensures.bind (ask_spec _)
  rintro error _ ⟨-, rfl⟩
  have stopped : Halts before { before with log := before.log ++ [.scriptStopped script.scriptId] } :=
    .note (by simp [SchedulerEvent.isQuiet])
  refine (halts.trans stopped).trans ((Halts.asks _).trans (.note ?_))
  simp [SchedulerEvent.isQuiet]

theorem shutdown_halts : Ensures (shutdown env) state fun _ after => Halts state after := by
  unfold shutdown
  apply Ensures.get
  apply Ensures.bind (ask_spec _)
  rintro chainIds _ ⟨-, rfl⟩
  refine Ensures.bind (shutdownChains_halts chainIds) ?_
  intro aborted first halts
  refine Ensures.bind killOpenJobs_halts ?_
  intro killed second ended
  have reached : (fun after => Halts state after) second :=
    ((Halts.asks state).trans halts).trans ended
  refine Ensures.bind (Ensures.forM reached ?_) ?_
  · intro jobId _ before earlier
    exact (persistStopped_halts jobId).mono fun _ _ => earlier.trans
  · intro _ third written
    exact failPendingScriptsOnShutdown_halts.mono fun _ _ => written.trans

end Shutdown

namespace SchedulerLoop

variable {loop : SchedulerLoop}

theorem settle_stopped : (loop.settle env config).stopped = loop.stopped := by
  unfold settle
  dsimp only
  split <;> rfl

/-- Nothing but a shutdown stops the loop. -/
theorem step_open {wake : Wake} (other : wake ≠ .message .shutdown) (open_ : loop.stopped = false) :
    (loop.step env config wake).stopped = false := by
  unfold step
  split
  · exact open_
  · cases wake with
    | startupActivation =>
      dsimp only [handleWake]
      split <;> exact open_
    | timer =>
      dsimp only [handleWake]
      split <;> exact open_
    | message message =>
      cases message with
      | eval clientId requestId command =>
        dsimp only [handleWake, handleMessage, evalMessage]
        split
        · exact open_
        · exact settle_stopped.trans open_
      | shutdown => exact absurd rfl other
      | _ => exact settle_stopped.trans open_

/-- A step of a loop that is not stopped: turns, and at the end the shutdown. -/
theorem step_state {isOpen : Bool} (wake : Wake) (open_ : loop.stopped = false)
    (resting : loop.state.Resting) (gate : loop.draining = false → isOpen = true) :
    ∃ middle, Turns env config isOpen loop.state middle ∧
      ((loop.step env config wake).state = middle ∨
        (loop.step env config wake).stopped = true ∧ Halts middle (loop.step env config wake).state) := by
  by_cases last : wake = .message .shutdown
  · subst last
    have swept : Turn env config isOpen loop.state (loop.after (sweepSessions env)).state := .sweep
    refine ⟨_, .single swept, .inr ?_⟩
    rw [step, if_neg (by simp [open_])]
    exact ⟨rfl, shutdown_halts⟩
  · exact ⟨_, step_turns wake resting gate (step_open last open_), .inl rfl⟩

/-- A run is a sequence of turns, which the shutdown may end. -/
theorem run_state (wakes : List Wake) (open_ : loop.stopped = false) (resting : loop.state.Resting) :
    ∃ middle, Turns env config true loop.state middle ∧
      ((loop.run env config wakes).state = middle ∨ Halts middle (loop.run env config wakes).state) := by
  induction wakes generalizing loop with
  | nil => exact ⟨loop.state, .refl, .inl rfl⟩
  | cons wake wakes ih =>
    rw [run, List.foldl_cons]
    obtain ⟨middle, turns, reached⟩ : ∃ middle, Turns env config true loop.state middle ∧ _ :=
      step_state wake open_ resting (fun _ => rfl)
    cases further : (loop.step env config wake).stopped with
    | true =>
      have same : (loop.step env config wake).run env config wakes = loop.step env config wake :=
        run_stopped further wakes
      rw [run] at same
      rw [same]
      exact ⟨middle, turns, reached.imp_right And.right⟩
    | false =>
      have same : (loop.step env config wake).state = middle := by
        rcases reached with same | ⟨stopped, -⟩
        · exact same
        · rw [stopped] at further
          cases further
      rw [← same] at turns
      obtain ⟨last, rest, ended⟩ := ih further (resting.turns turns)
      exact ⟨last, turns.trans rest, ended⟩

theorem history_state (restored : Restored state) (isStarting : Bool) (wakes : List Wake) :
    ∃ middle, Turns env config true state middle ∧
      ((history env config state isStarting wakes).state = middle ∨
        Halts middle (history env config state isStarting wakes).state) := by
  have boot : Turns env config true state (boot env config state isStarting).state :=
    boot_turns restored isStarting
  obtain ⟨middle, turns, reached⟩ := run_state wakes rfl (restored.resting.turns boot)
  exact ⟨middle, boot.trans turns, reached⟩

end SchedulerLoop

end CueShell
