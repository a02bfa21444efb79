import CueShell.Proofs.SchedulerPaths

/-! # Commands are paths

What a client or a script asks for takes the board along a path. These are the commands that end no job:
those that run chains, change crons, show lists and store settings.
-/

namespace CueShell

variable {env : Env} {config : Config} (occasion : Occasion)
variable {state : SchedulerState} {running : List RunningScript} {retained : Bool}

section Plain

theorem Serves.error (code message : String) :
    Serves config occasion running retained (pure (errorResponse code message)) state :=
  ⟨.refl _, .error ..⟩

/-- A plain answer after a path. -/
theorem Serves.plain {response : Response} (plain : response.plain) :
    Serves config occasion running retained (pure response) state :=
  ⟨.refl _, .of_plain plain⟩

/-- A program is served after a path to its state. -/
theorem Serves.after {program : Sched Response} {first : SchedulerState}
    (serves : Serves config occasion running retained program state)
    (path : Board.Path config occasion (first.board none running) (state.board none running)) :
    Ensures program state fun response after =>
      Board.Path config occasion (first.board none running) (after.board none running) ∧
        ProperAnswer retained response after :=
  serves.mono fun _ _ ⟨rest, answered⟩ => ⟨path.trans rest, answered⟩

theorem deriveModeParamsScope_asks (base : ScopeHash) (params : ModeParams) :
    Ensures (deriveModeParamsScope env base params) state fun _ after => AsksOnly state after := by
  unfold deriveModeParamsScope
  split
  · exact .refl state
  · exact ask_only _

variable (clientId : ClientId) (requester : Option SessionId)
variable (orderly : (state.board none running).Orderly)
variable (owner : (state.board none running).ActsFor requester)
variable (source : occasion.isOpen ∨ (state.board none running).Submits)

include orderly owner source in
theorem runChecked_serves (chain : ChainNode) (params : ModeParams) (context : CommandExecutionContext)
    (scopeHash : ScopeHash) :
    Serves config occasion running context.scopeOverride.isSome
      (runChecked env config chain params clientId context requester scopeHash) state := by
  unfold runChecked
  split
  · exact Serves.error occasion ..
  · rename_i warnings checked
    apply Ensures.get
    split
    · exact Serves.error occasion ..
    · exact spawnChain_serves occasion orderly (.run warnings owner checked source) .inl

include orderly owner source in
theorem handleRun_serves (chain : ChainNode) (params : ModeParams) (context : CommandExecutionContext) :
    Serves config occasion running context.scopeOverride.isSome
      (handleRun env config chain params clientId context requester) state := by
  unfold handleRun
  apply Ensures.get
  split
  · exact Serves.plain occasion rfl
  · refine Ensures.bind (deriveModeParamsScope_asks _ params) ?_
    intro derived after asks
    have path : Board.Path config occasion (state.board none running) (after.board none running) :=
      asks.path
    cases derived with
    | error reason => exact (Serves.error occasion _ _).after occasion path
    | ok scopeHash =>
      have acts : (after.board none running).ActsFor requester := by
        obtain ⟨count, rfl⟩ := asks
        exact owner
      have asked : occasion.isOpen ∨ (after.board none running).Submits := by
        obtain ⟨count, rfl⟩ := asks
        exact source
      exact (runChecked_serves occasion clientId requester (path.orderly orderly) acts asked chain
        params context scopeHash).after occasion path

include owner in
theorem addCron_serves (schedule : CronSchedule) (chain : ChainNode) (params : ModeParams)
    (scopeHash : ScopeHash) :
    Serves config occasion running retained
      (addCron env config schedule chain params clientId requester scopeHash) state := by
  have counted : CronsOnly running state { state with nextCron := state.nextCron + 1 } :=
    ⟨0, _, _, _, rfl, fun _ entry found => .inl ⟨entry, found, rfl⟩⟩
  have allocated : Ensures allocCron state fun _ after =>
      after = { state with nextCron := state.nextCron + 1 } := rfl
  unfold addCron
  apply allocated.bind
  rintro cronId _ rfl
  refine Ensures.bind (nextTriggerInstant_asks schedule 0) ?_
  intro trigger asked asks
  have path := counted.path.trans (asks.path : Board.Path config occasion _ (asked.board none running))
  cases trigger with
  | none => exact (Serves.error occasion _ _).after occasion path
  | some trigger =>
    apply Ensures.get
    split
    · exact (Serves.error occasion _ _).after occasion path
    · refine Ensures.bind (persistCronRecord_crons running cronId _) ?_
      rintro error stored ⟨changed, -⟩
      have path := path.trans changed.path
      cases error with
      | some error => exact (Serves.error occasion _ _).after occasion path
      | none =>
        have acts : (stored.board none running).ActsFor requester := by
          obtain ⟨count, rfl⟩ := asks
          obtain ⟨_, _, _, _, rfl, -⟩ := changed
          exact owner
        exact ⟨path.trans (cronsOnly_add acts).path, .cronAdded ..⟩

include owner in
theorem handleCron_serves (schedule : CronSchedule) (chain : ChainNode) (params : ModeParams)
    (context : CommandExecutionContext) :
    Serves config occasion running retained
      (handleCron env config schedule chain params clientId context requester) state := by
  unfold handleCron
  apply Ensures.get
  split
  · exact Serves.plain occasion rfl
  · refine Ensures.bind (deriveModeParamsScope_asks _ params) ?_
    intro derived after asks
    have path : Board.Path config occasion (state.board none running) (after.board none running) :=
      asks.path
    cases derived with
    | error reason => exact (Serves.error occasion _ _).after occasion path
    | ok scopeHash =>
      dsimp only
      split
      · exact (Serves.error occasion _ _).after occasion path
      · have acts : (after.board none running).ActsFor requester := by
          obtain ⟨count, rfl⟩ := asks
          exact owner
        exact (addCron_serves occasion clientId requester acts schedule chain params scopeHash).after
          occasion path

/-- A change of a cron keeps its owner. -/
theorem updateCron_serves (id unsupported : String) (change : CronEntry → Sched CronEntry)
    (keeps : ∀ entry state, Ensures (change entry) state fun updated after =>
      updated.sessionId = entry.sessionId ∧ AsksOnly state after) :
    Serves config occasion running retained (updateCron env id unsupported change) state := by
  unfold updateCron
  split
  · exact Serves.error occasion ..
  · rename_i cronId _
    apply Ensures.get
    split
    · exact Serves.error occasion ..
    · rename_i entry found
      split
      · exact Serves.error occasion ..
      · refine Ensures.bind (keeps entry state) ?_
        rintro updated asked ⟨same, asks⟩
        refine Ensures.bind (persistCronRecord_crons running cronId _) ?_
        rintro error stored ⟨changed, kept⟩
        have path : Board.Path config occasion (state.board none running) (stored.board none running) :=
          asks.path.trans changed.path
        cases error with
        | some error => exact (Serves.error occasion _ _).after occasion path
        | none =>
          have still : stored.crons.get cronId = some entry := by
            obtain ⟨count, rfl⟩ := asks
            rw [kept]
            exact found
          exact ⟨path.trans (cronsOnly_insert still same).path, .of_plain rfl⟩

theorem handlePause_serves (id : String) :
    Serves config occasion running retained (handlePause env id) state :=
  updateCron_serves occasion id _ _ fun _ state => ⟨rfl, .refl state⟩

theorem handleResume_serves (id : String) :
    Serves config occasion running retained (handleResume env id) state := by
  apply updateCron_serves
  intro entry state
  refine Ensures.bind (nextTriggerInstant_asks entry.schedule 0) ?_
  exact fun trigger after asks => ⟨rfl, asks⟩

theorem removeKnownCron_serves (id : String) (cronId : CronId) :
    Serves config occasion running retained (removeKnownCron env id cronId) state := by
  unfold removeKnownCron
  apply Ensures.get
  split
  · exact Serves.error occasion ..
  · exact removeCronEntry_serves occasion cronId retained

theorem handleRemoveCron_serves (id : String) :
    Serves config occasion running retained (handleRemoveCron env id) state := by
  unfold handleRemoveCron
  split
  · exact Serves.error occasion ..
  · exact removeKnownCron_serves occasion id _

include orderly owner source in
theorem handleRetry_serves (id : String)
    (noted : .command (.retry id) requester state.jobs state.sessions ∈ state.log)
    (seen : ∀ jobId entry session, parseJobId id = some jobId → state.jobs.get jobId = some entry →
      requester = some session → entry.sessionId = some session) :
    Serves config occasion running retained (handleRetry env config id) state := by
  unfold handleRetry
  split
  · exact Serves.error occasion ..
  · rename_i jobId named
    apply Ensures.get
    split
    · exact Serves.error occasion ..
    · rename_i entry found
      split
      · exact Serves.error occasion ..
      · rename_i ended
        split
        · exact Serves.error occasion ..
        · exact Serves.error occasion ..
        · rename_i start text
          exact spawnChain_serves occasion orderly (.retry id requester jobId entry noted named
            found (by simpa using ended) start text rfl source owner
              (seen jobId entry · named found)) fun _ => .inr ⟨rfl, rfl⟩

end Plain

section Settings

theorem handleScopeCommand_serves (command : SingleCommand) (clientId : ClientId) :
    Serves config occasion running retained (handleScopeCommand env command clientId) state := by
  have first : Board.Path config occasion (state.board none running)
      (SchedulerState.board { state with question := state.question + 1 } none running) :=
    Board.Path.asks _ 1
  unfold handleScopeCommand
  apply Ensures.bind (ask_spec _)
  rintro delta _ ⟨answered, rfl⟩
  cases delta with
  | error response =>
    exact (Serves.plain occasion (env.scopeDelta_plain _ _ _ answered.symm)).after occasion first
  | ok delta =>
    apply Ensures.get
    split
    · exact (Serves.plain occasion rfl).after occasion first
    · apply Ensures.bind (ask_spec _)
      rintro derived _ ⟨-, rfl⟩
      have second : Board.Path config occasion (state.board none running)
          (SchedulerState.board { state with question := state.question + 2 } none running) :=
        Board.Path.asks _ 2
      cases derived with
      | error message => exact (Serves.error occasion _ _).after occasion second
      | ok hash =>
        apply Ensures.bind (ask_spec _)
        rintro answers _ ⟨-, rfl⟩
        apply Ensures.get
        let stored : SchedulerState := { state with
          question := state.question + 3
          sessions := (state.sessions.updateClientSessionScope answers clientId hash).2 }
        have third : Board.Path config occasion (state.board none running) (stored.board none running) :=
          (Board.Path.asks (state.board none running) 3).trans
            (.single (.scope answers clientId hash) (fun _ due => due) (fun _ due => due) le_rfl)
        apply Ensures.modify
        split
        · exact (Serves.error occasion _ _).after occasion third
        · refine Ensures.mono (ask_spec _) ?_
          rintro response after ⟨rfl, rfl⟩
          exact ⟨third.trans (Board.Path.asks _ 1), .of_plain (env.answer_plain ..)⟩

/-- A session default is stored, and the client is told. -/
theorem storeDefaults_serves {key : String} {session : SessionState}
    (found : state.sessions.sessions.get key = some session) (defaults : LaunchDefaults) (text : String) :
    Serves config occasion running retained (do
      let answers ← ask env.sessionAnswers
      let (error, sessions) := state.sessions.updateDefaults answers key session defaults
      modify fun state => { state with sessions := sessions }
      match error with
      | some error => return errorResponse "INTERNAL" error
      | none => return .ok (.evalText text)) state := by
  apply Ensures.bind (ask_spec _)
  rintro answers _ ⟨-, rfl⟩
  let stored : SchedulerState := { state with
    question := state.question + 1
    sessions := (state.sessions.updateDefaults answers key session defaults).2 }
  have path : Board.Path config occasion (state.board none running) (stored.board none running) :=
    (Board.Path.asks (state.board none running) 1).trans
      (.single (.defaults answers key session _ found) (fun _ due => due) (fun _ due => due) le_rfl)
  apply Ensures.modify
  split
  · exact (Serves.error occasion _ _).after occasion path
  · exact (Serves.plain occasion rfl).after occasion path

theorem handleSessionBoolDefault_serves (clientId : ClientId) (subcommand : Option String)
    (name : String) (configDefault : Bool) (field : LaunchDefaults → Option Bool)
    (store : LaunchDefaults → Bool → LaunchDefaults) :
    Serves config occasion running retained
      (handleSessionBoolDefault env clientId subcommand name configDefault field store) state := by
  unfold handleSessionBoolDefault
  apply Ensures.get
  dsimp only
  split
  · exact Serves.plain occasion rfl
  · rename_i key _
    split
    · exact Serves.error occasion ..
    · rename_i session found
      split
      · exact storeDefaults_serves occasion found (store session.defaults true)
          (name ++ " " ++ "enabled" ++ " for this session")
      · exact storeDefaults_serves occasion found (store session.defaults false)
          (name ++ " " ++ "disabled" ++ " for this session")
      · exact Serves.plain occasion rfl
      · exact Serves.plain occasion rfl
      · exact Serves.error occasion ..

theorem handleQuery_serves (command : SingleCommand) (clientId : ClientId)
    (requester : Option SessionId) :
    Serves config occasion running retained (handleQuery env config command clientId requester) state := by
  unfold handleQuery
  apply Ensures.get
  split
  · exact Serves.plain occasion rfl
  · exact Serves.plain occasion rfl
  · exact Serves.plain occasion rfl
  · exact Serves.plain occasion rfl
  · exact Serves.plain occasion rfl
  · split
    · rename_i tailBytes response invalid
      have plain : response.plain := by
        unfold invalidTailBytesResponse at invalid
        split at invalid
        · cases invalid
          rfl
        · cases invalid
      exact Serves.plain occasion plain
    · exact Serves.plain occasion rfl
  · exact handleScopeCommand_serves occasion _ clientId
  · exact handleScopeCommand_serves occasion _ clientId
  · exact handleSessionBoolDefault_serves occasion clientId _ _ _ _ _
  · exact handleSessionBoolDefault_serves occasion clientId _ _ _ _ _
  · exact Serves.plain occasion rfl
  · exact Serves.plain occasion rfl
  · refine Ensures.mono (ask_spec _) ?_
    rintro response after ⟨rfl, rfl⟩
    exact ⟨Board.Path.asks _ 1, .of_plain (env.answer_plain ..)⟩

end Settings

end CueShell
