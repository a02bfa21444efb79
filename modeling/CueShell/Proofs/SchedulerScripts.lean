import CueShell.Proofs.SchedulerEnds

/-! # Scripts are paths

A script submits its items one after the other. An item is a command of the client, so it may end work
that other scripts wait for; these go on first. Every round submits an item, and no path submits more
items than there are, so a script that is given one round more than there are items does not run out of
rounds.
-/

namespace CueShell

variable {env : Env} {config : Config} {occasion : Occasion}
variable {state : SchedulerState} {outer : List RunningScript}

/-- A response that does not tell the state of a job. -/
def Response.Silent (response : Response) : Prop :=
  ∀ jobId entry, response ≠ .ok (.jobInfo jobId entry)

/-- What is answered once a script stops, and what it goes on with. -/
inductive ScriptStep.Ends (config : Config) (occasion : Occasion)
    (outer : List RunningScript) (items : List ResolvedScriptItem) (before : Board)
    (after : SchedulerState) : ScriptStep → Prop
  | stop {response : Option Response} (silent : ∀ answer ∈ response, answer.Silent)
      (path : Board.Path config occasion before (after.board none outer)) :
      Ends config occasion outer items before after (.stop response)
  | go {script : PendingScriptRun} (same : script.items = items)
      (path : Board.Path config occasion before (after.board none (⟨script, .idle⟩ :: outer))) :
      Ends config occasion outer items before after (.go script)

theorem scriptCreatedResponse_silent (script : PendingScriptRun)
    (submitError : Option ScriptSubmitError) : (scriptCreatedResponse script submitError).Silent := by
  intro jobId entry same
  cases same

theorem errorResponse_silent (code message : String) : (errorResponse code message).Silent := by
  intro jobId entry same
  cases same

section Items

variable {script : PendingScriptRun} {index : ℕ}

theorem finishScript_spec (exitCode : ℤ) (failedIndex : Option ℕ)
    (submitError : Option ScriptSubmitError) (respondCreated : Bool) :
    Ensures (finishScript env script exitCode failedIndex submitError respondCreated) state
      fun step after => ∃ report, (report = [] ∨
          report = [.scriptFinished script.scriptId exitCode failedIndex]) ∧
        after = { state with question := state.question + 1, log := state.log ++ report } ∧
        ∃ response, step = .stop response ∧ ∀ answer ∈ response, answer.Silent := by
  unfold finishScript
  apply Ensures.bind (ask_spec _)
  rintro error after ⟨-, rfl⟩
  split
  · apply Ensures.pure
    refine ⟨[], .inl rfl, by rw [List.append_nil], _, rfl, ?_⟩
    rintro answer ⟨⟩
    exact errorResponse_silent _ _
  · refine ⟨_, .inr rfl, rfl, _, rfl, ?_⟩
    intro answer given
    split at given
    · cases given
      exact scriptCreatedResponse_silent _ _
    · cases given

theorem suspendScript_spec (respondCreated : Bool) :
    Ensures (suspendScript env script index respondCreated) state fun step after =>
      after = { state with
        question := state.question + 1
        pendingScripts := state.pendingScripts.insert script.scriptId
          { script with waitingIndex := some index } } ∧
      ∃ response, step = .stop response ∧ ∀ answer ∈ response, answer.Silent := by
  unfold suspendScript
  apply Ensures.bind (ask_spec _)
  rintro error after ⟨-, rfl⟩
  apply Ensures.modify
  split
  · refine ⟨rfl, _, rfl, ?_⟩
    rintro answer ⟨⟩
    exact errorResponse_silent _ _
  · refine ⟨rfl, _, rfl, ?_⟩
    rintro answer ⟨⟩
    exact scriptCreatedResponse_silent _ _
  · refine ⟨rfl, _, rfl, ?_⟩
    rintro answer ⟨⟩

variable {later : PendingScriptRun} {result : ScriptItemResult} {exitCode : ℤ}
variable (position : script.nextIndex = index + 1)

theorem items_left (state : SchedulerState) (script : PendingScriptRun) (mode : ScriptMode)
    (outer : List RunningScript) : (state.board none outer).items + script.items.length =
      (state.board none (⟨script, mode⟩ :: outer)).items := by
  simp only [Board.items, SchedulerState.board, List.map_cons, List.sum_cons]
  omega

include position in
/-- An item has failed. -/
theorem fail_path (ended : (state.board none (⟨script, .busy⟩ :: outer)).EndedWith exitCode result)
    (failed : exitCode ≠ 0) {report : List SchedulerEvent}
    (reported : report = [] ∨ report = [.scriptFinished script.scriptId exitCode (some index)]) :
    Board.Path config occasion (state.board none (⟨script, .busy⟩ :: outer))
      ((state.noted (.itemEnded script.scriptId (some index) result exitCode :: report)).board none
        outer) := by
  have left := items_left state script .busy outer
  exact .single (.fail rfl position ended failed report reported) (fun _ due => due)
    (fun _ due => due) (Nat.le.intro left)

include position in
/-- An item has ended well. -/
theorem pass_path (ended : (state.board none (⟨script, .busy⟩ :: outer)).EndedWith 0 result)
    (same : script.Same later) :
    Board.Path config occasion (state.board none (⟨script, .busy⟩ :: outer))
      ((state.noted [.itemEnded script.scriptId (some index) result 0]).board none
        (⟨later, .idle⟩ :: outer)) := by
  refine .single (.pass rfl position ended same) (fun _ due => due) (fun _ due => due) (le_of_eq ?_)
  simp [Board.items, SchedulerState.noted, SchedulerState.board, SchedulerState.openItems, same.items]

/-- A script waits for the item it has just submitted. -/
theorem openItems_insert (state : SchedulerState) (script : PendingScriptRun) (scriptId : ScriptId) :
    SchedulerState.openItems { state with
      pendingScripts := state.pendingScripts.insert scriptId script } ≤
        state.openItems + script.items.length := by
  have stored := state.pendingScripts.total_insert (fun pending => pending.items.length) scriptId script
  simp only [SchedulerState.openItems]
  omega

/-- The state once a script waits. -/
def SchedulerState.awaiting (state : SchedulerState) (script : PendingScriptRun) :
    ScriptItemResult → SchedulerState
  | .job jobId => { state with
      pendingScriptJobs := state.pendingScriptJobs.insert jobId script.scriptId
      pendingScripts := state.pendingScripts.insert script.scriptId script }
  | .chain chainId => { state with
      pendingScriptChains := state.pendingScriptChains.insert chainId script.scriptId
      pendingScripts := state.pendingScripts.insert script.scriptId script }
  | .cron _ | .message => { state with
      pendingScripts := state.pendingScripts.insert script.scriptId script }

include position in
/-- A script waits for an item that has not ended. -/
theorem suspend_path (waits : (state.board none (⟨script, .busy⟩ :: outer)).Open result)
    (same : script.Same later) (waiting : later.waitingIndex = some index) :
    Board.Path config occasion (state.board none (⟨script, .busy⟩ :: outer))
      ((state.awaiting later result).board none outer) := by
  have flow : Board.Flow config occasion (state.board none (⟨script, .busy⟩ :: outer)) _ :=
    .suspend rfl position waits same waiting
  have items : (SchedulerState.board { state with
      pendingScripts := state.pendingScripts.insert script.scriptId later } none outer).items ≤
        (state.board none (⟨script, .busy⟩ :: outer)).items := by
    have stored := openItems_insert state later script.scriptId
    have length := congrArg List.length same.items
    simp only [Board.items, SchedulerState.board, List.map_cons, List.sum_cons]
    omega
  cases result with
  | job jobId =>
    obtain ⟨outside, entry, found, unfinished⟩ := waits
    rw [SchedulerState.awaiting, same.scriptId]
    refine .single flow ?_ (fun _ due => due) items
    rintro other ⟨linked, past⟩
    rcases Finset.mem_insert.mp linked with rfl | old
    · exact absurd (past entry found) unfinished
    · exact ⟨old, past⟩
  | chain chainId =>
    rw [SchedulerState.awaiting, same.scriptId]
    refine .single flow (fun _ due => due) ?_ items
    rintro other ⟨linked, inactive⟩
    rcases Finset.mem_insert.mp linked with rfl | old
    · exact absurd ((state.chains.mem_keys other).mpr waits) inactive
    · exact ⟨old, inactive⟩
  | cron cronId => exact waits.elim
  | message => exact waits.elim

/-- A complete chain for which nobody waits is forgotten. -/
theorem forget_path (state : SchedulerState) {running : List RunningScript} {chainId : ChainId}
    (idle : state.pendingScriptChains.get chainId = none) :
    Board.Path config occasion (state.board none running) (SchedulerState.board { state with
      completedChains := state.completedChains.erase chainId } none running) :=
  .single (.forget chainId idle) (fun _ due => due) (fun _ due => due) le_rfl

include position in
theorem suspendScript_ends (respondCreated : Bool) (same : script.Same later)
    (waits : (state.board none (⟨script, .busy⟩ :: outer)).Open result)
    {linked : SchedulerState}
    (links : state.awaiting { later with waitingIndex := some index } result = { linked with
      pendingScripts := linked.pendingScripts.insert later.scriptId
        { later with waitingIndex := some index } }) :
    Ensures (suspendScript env later index respondCreated) linked fun step after =>
      step.Ends config occasion outer script.items (state.board none (⟨script, .busy⟩ :: outer)) after := by
  apply (suspendScript_spec respondCreated).mono
  rintro step after ⟨rfl, response, rfl, silent⟩
  have waiting : script.Same { later with waitingIndex := some index } :=
    ⟨same.clientId, same.scriptId, same.items, same.nextIndex, same.sessionId, same.lastExitCode⟩
  have path : Board.Path config occasion (state.board none (⟨script, .busy⟩ :: outer)) _ :=
    suspend_path position waits waiting rfl
  rw [links] at path
  exact .stop silent (path.trans (Board.Path.asks _ 1))

include position in
theorem awaitChain_ends (chainId : ChainId) (respondCreated : Bool) (same : script.Same later)
    (idle : state.pendingScriptChains.get chainId = none)
    (known : (state.chains.get chainId).isSome ∨ (state.completedChains.get chainId).isSome) :
    Ensures (awaitChain env later index chainId respondCreated) state fun step after =>
      step.Ends config occasion outer script.items (state.board none (⟨script, .busy⟩ :: outer)) after := by
  unfold awaitChain
  apply Ensures.get
  split
  · rename_i completion complete
    have ended : (state.board none (⟨script, .busy⟩ :: outer)).EndedWith completion.exitCode
        (.chain chainId) := ⟨completion.endScope, complete⟩
    apply Ensures.modify
    apply Ensures.modify
    dsimp only
    split
    · rename_i failed
      refine Ensures.bind (finishPendingScriptFailed_spec _ _) ?_
      rintro _ reported rfl
      apply Ensures.pure
      have path : Board.Path config occasion (state.board none (⟨script, .busy⟩ :: outer)) _ :=
        fail_path position ended failed (.inr rfl)
      refine .stop ?_ ?_
      · intro answer given
        split at given
        · cases given
          exact scriptCreatedResponse_silent _ _
        · cases given
      · have forgotten := (path.trans (forget_path (state.noted _) idle)).trans (Board.Path.asks _ 1)
        simpa [SchedulerState.noted, SchedulerState.board, same.scriptId] using forgotten
    · rename_i passed
      obtain zero : completion.exitCode = 0 := by simpa using passed
      rw [zero] at ended ⊢
      let passed : PendingScriptRun := { later with
        waitingIndex := some index
        itemScope := completion.endScope.getD later.itemScope
        lastExitCode := 0 }
      have still : script.Same passed :=
        ⟨same.clientId, same.scriptId, same.items, same.nextIndex, same.sessionId, .inl rfl⟩
      have path : Board.Path config occasion (state.board none (⟨script, .busy⟩ :: outer)) _ :=
        pass_path position ended still
      apply Ensures.pure
      refine .go same.items ?_
      rw [← same.scriptId] at path
      exact path.trans (forget_path (state.noted _) idle)
  · rename_i incomplete
    have waits : (state.board none (⟨script, .busy⟩ :: outer)).Open (.chain chainId) :=
      known.resolve_right (by simp [incomplete])
    apply Ensures.modify
    exact suspendScript_ends position respondCreated same waits rfl

/-- The exit code of an item that ended at once. -/
theorem immediateScriptItemExitCode_ended {payload : OkPayload} {board : Board}
    (ended : immediateScriptItemExitCode board.toSchedulerState payload = some exitCode) :
    board.EndedWith exitCode (scriptItemResult payload) := by
  unfold immediateScriptItemExitCode at ended
  split at ended
  · rename_i jobId scope warnings
    obtain ⟨entry, found, ended⟩ := Option.bind_eq_some_iff.mp ended
    split at ended
    · rename_i past
      refine ⟨exitCodeUnavailable, ?_⟩
      simp [scriptExitCodeForJob, found, past, ← Option.some.inj ended]
    · cases ended
  all_goals cases ended
  all_goals rfl

/-- An item that did not end at once and is neither a job nor a chain is a message. -/
theorem scriptItemResult_message {payload : OkPayload} {board : Board}
    (later : immediateScriptItemExitCode board.toSchedulerState payload = none)
    (jobs : ∀ jobId, scriptItemResult payload ≠ .job jobId)
    (chains : ∀ chainId, scriptItemResult payload ≠ .chain chainId) :
    board.EndedWith 0 (scriptItemResult payload) := by
  cases payload with
  | jobCreated jobId => exact absurd rfl (jobs jobId)
  | chainCreated chainId => exact absurd rfl (chains chainId)
  | _ => rfl

include position in
/-- An item has been accepted: the script fails, goes on or waits. -/
theorem afterItem_ends {payload : OkPayload} (source : String) (respondCreated : Bool)
    (proper : ProperAnswer true (.ok payload) state) :
    Ensures (afterItem env script index source payload respondCreated) state fun step after =>
      step.Ends config occasion outer script.items (state.board none (⟨script, .busy⟩ :: outer)) after := by
  let created : PendingScriptRun := { script with
    itemScope := (scriptItemEndScope state payload).getD script.itemScope
    createdItems := script.createdItems ++ [⟨index, source, scriptItemResult payload⟩] }
  have same : script.Same created := ⟨rfl, rfl, rfl, rfl, rfl, .inr rfl⟩
  unfold afterItem
  apply Ensures.get
  dsimp only
  split
  · rename_i exitCode immediate
    have ended : (state.board none (⟨script, .busy⟩ :: outer)).EndedWith exitCode
        (scriptItemResult payload) := immediateScriptItemExitCode_ended immediate
    apply Ensures.modify
    split
    · rename_i failed
      apply (finishScript_spec _ _ _ _).mono
      rintro step after ⟨report, reported, rfl, response, rfl, silent⟩
      have path : Board.Path config occasion (state.board none (⟨script, .busy⟩ :: outer)) _ :=
        fail_path position ended failed reported
      refine .stop silent ?_
      simpa [SchedulerState.noted, SchedulerState.board] using path.trans (Board.Path.asks _ 1)
    · rename_i passed
      obtain rfl : exitCode = 0 := by simpa using passed
      apply Ensures.pure
      have still : script.Same { created with lastExitCode := 0 } :=
        ⟨rfl, rfl, rfl, rfl, rfl, .inl rfl⟩
      exact .go rfl (pass_path position ended still)
  · rename_i unfinished
    split
    · rename_i jobId result
      obtain ⟨scope, warnings, rfl⟩ : ∃ scope warnings, payload = .jobCreated jobId scope warnings := by
        cases payload <;> cases result
        exact ⟨_, _, rfl⟩
      obtain ⟨outside, present⟩ := proper.job jobId scope warnings rfl
      obtain ⟨entry, found⟩ := Option.isSome_iff_exists.mp present
      have waits : (state.board none (⟨script, .busy⟩ :: outer)).Open (.job jobId) := by
        refine ⟨outside, entry, found, fun past => ?_⟩
        simp [immediateScriptItemExitCode, found, past] at unfinished
      apply Ensures.modify
      exact suspendScript_ends position respondCreated same waits rfl
    · rename_i chainId result
      obtain ⟨jobIds, info, warnings, rfl⟩ : ∃ jobIds info warnings,
          payload = .chainCreated chainId jobIds info warnings := by
        cases payload <;> cases result
        exact ⟨_, _, _, rfl⟩
      obtain ⟨idle, known⟩ := proper.chain chainId jobIds info warnings rfl
      exact awaitChain_ends position chainId respondCreated same idle (known rfl)
    · rename_i jobs chains
      have ended : (state.board none (⟨script, .busy⟩ :: outer)).EndedWith 0
          (scriptItemResult payload) := scriptItemResult_message unfinished jobs chains
      apply Ensures.modify
      exact .go rfl (pass_path position ended same)

end Items

section Rounds

/-- Every script that is given enough rounds follows a path. -/
def Submits (env : Env) (config : Config) (occasion : Occasion) (rounds : ℕ) : Prop :=
  ∀ (state : SchedulerState) (script : PendingScriptRun) (outer : List RunningScript)
    (respondCreated : Bool), (state.board none (⟨script, .idle⟩ :: outer)).Orderly →
    script.items.length + state.openItems < rounds →
    Ensures (submitPendingScriptNext env config rounds script respondCreated) state
      fun response after =>
        Board.Path config occasion (state.board none (⟨script, .idle⟩ :: outer))
          (after.board none outer) ∧ ∀ answer ∈ response, answer.Silent

variable {rounds : ℕ} (submits : Submits env config occasion rounds) {script : PendingScriptRun}

include submits

theorem continuePendingScript_resumes :
    Resumes config occasion rounds (continuePendingScript env config rounds) := by
  intro state script outer orderly few
  refine Ensures.bind (submits state script outer false orderly few) ?_
  exact fun _ after reached => reached.1

/-- A script stops after an item, or submits the next one. -/
theorem goOn_path {step : ScriptStep} {before : Board} {after : SchedulerState}
    (respondCreated : Bool) (orderly : before.Orderly)
    (few : before.items < rounds + (outer.map fun current => current.script.items.length).sum)
    (ends : step.Ends config occasion outer script.items before after) :
    Ensures (match step with
      | .stop response => pure response
      | .go script => submitPendingScriptNext env config rounds script respondCreated) after
      fun response last =>
        Board.Path config occasion before (last.board none outer) ∧ ∀ answer ∈ response, answer.Silent := by
  cases ends with
  | stop silent path => exact ⟨path, silent⟩
  | @go later same path =>
    have fewer : later.items.length + after.openItems < rounds := by
      have items := path.items
      simp only [Board.items, SchedulerState.board, List.map_cons, List.sum_cons] at items few
      omega
    refine (submits after later outer respondCreated (path.orderly orderly) fewer).mono ?_
    exact fun response last reached => ⟨path.trans reached.1, reached.2⟩

end Rounds

/-- A script under way, given one round more than there are items, follows a path to its end or to
the item it has to wait for. -/
theorem submitPendingScriptNext_path (rounds : ℕ) : Submits env config occasion rounds := by
  induction rounds with
  | zero =>
    intro state script outer respondCreated orderly few
    omega
  | succ rounds submits =>
    intro state script outer respondCreated orderly few
    unfold submitPendingScriptNext
    cases items : script.items with
    | nil =>
      refine Ensures.bind (finishScript_spec _ _ _ _) ?_
      rintro step after ⟨report, reported, rfl, response, rfl, silent⟩
      have left := items_left state script .idle outer
      have done : Board.Path config occasion (state.board none (⟨script, .idle⟩ :: outer))
          ((state.noted report).board none outer) :=
        .single (.done rfl items report reported) (fun _ due => due) (fun _ due => due)
          (Nat.le.intro left)
      exact ⟨done.trans (Board.Path.asks _ 1), silent⟩
    | cons item rest =>
      let next : PendingScriptRun := { script with items := rest, nextIndex := script.nextIndex + 1 }
      have length : script.items.length = rest.length + 1 := by simp [items]
      have submitted : Board.Path config occasion (state.board none (⟨script, .idle⟩ :: outer))
          ((state.noted [.itemSubmitted script.scriptId script.nextIndex]).board none
            (⟨next, .busy⟩ :: outer)) := by
        refine .single (.submit rfl items) (fun _ due => due) (fun _ due => due) ?_
        simp only [Board.items, SchedulerState.noted, SchedulerState.board, List.map_cons,
          List.sum_cons, SchedulerState.openItems, next]
        omega
      have fewer : state.openItems < rounds := by omega
      have resumes : Resumes config occasion rounds (continuePendingScript env config rounds) :=
        continuePendingScript_resumes submits
      apply Ensures.modify
      refine Ensures.bind (handleCommandWithScope_serves occasion resumes (submitted.orderly orderly)
        fewer item.command script.clientId
        ⟨some script.itemScope, some script.clientId, script.sessionId⟩ ?_ ?_) ?_
      · exact fun sessionId named => .inr ⟨⟨next, .busy⟩, List.mem_cons_self .., named.symm⟩
      · exact fun _ => .inr ⟨next, outer, state.log, script.nextIndex, rfl, rfl⟩
      · rintro response answered ⟨path, proper⟩
        have reached := submitted.trans path
        have room : (answered.board none (⟨next, .busy⟩ :: outer)).items <
            rounds + (outer.map fun current => current.script.items.length).sum := by
          have items := path.items
          simp only [Board.items, SchedulerState.noted, SchedulerState.board, List.map_cons,
            List.sum_cons, SchedulerState.openItems, next] at items few ⊢
          omega
        have goOn {step : ScriptStep} {after : SchedulerState}
            (ends : step.Ends config occasion outer next.items
              (answered.board none (⟨next, .busy⟩ :: outer)) after) :=
          (goOn_path submits respondCreated (reached.orderly orderly) room ends).mono
            fun _ _ rest => And.intro (reached.trans rest.1) rest.2
        cases response with
        | ok payload =>
          exact Ensures.bind (afterItem_ends rfl item.source respondCreated proper) fun _ _ => goOn
        | err code message =>
          apply Ensures.modify
          refine Ensures.bind (finishScript_spec _ _ _ _) ?_
          rintro step after ⟨report, reported, rfl, answer, rfl, silent⟩
          have left := items_left answered next .busy outer
          have rejected : Board.Path config occasion (answered.board none (⟨next, .busy⟩ :: outer))
              ((answered.noted (.itemRejected next.scriptId script.nextIndex :: report)).board none
                outer) :=
            .single (.reject rfl rfl report reported) (fun _ due => due) (fun _ due => due)
              (Nat.le.intro left)
          refine goOn (.stop silent ?_)
          simpa [SchedulerState.noted, SchedulerState.board] using rejected.trans (Board.Path.asks _ 1)

end CueShell
