import CueShell.Model.Scheduler.Board
import CueShell.Proofs.ChainRuns
import CueShell.ToMathlib.Ensures

/-! # Running jobs is a sequence of moves

Every function of the scheduler that enters, ends, cancels or admits jobs is followed from the board
before it to the board after it. The end of a job leaves work on its chain; the functions that carry
out this work take it off the board again.
-/

namespace CueShell

open Relation (ReflTransGen)

variable {env : Env} {state : SchedulerState} {work : Option Work} (running : List RunningScript)
variable (target : Targets) {jobId : JobId}

/-- What is due once an advance has been asked for. -/
def ChainAdvance.due (work : Option Work) : Option ChainAdvance → Option Work
  | none => work
  | some advance =>
      some ⟨advance.chainId, advance.toCancel, work.elim [] Work.ready ++ advance.newlyReady⟩

section Ends

theorem run_pure {α : Type} (result : α) (state : SchedulerState) :
    (pure result : Sched α) state = (result, state) :=
  rfl

theorem recordAll_eq {α : Type} (items : List α) (event : α → SchedulerEvent)
    (state : SchedulerState) :
    (items.forM (fun item => record (event item)) : Sched PUnit) state =
      (⟨⟩, { state with log := state.log ++ items.map event }) := by
  induction items generalizing state with
  | nil => simp [List.forM, run_pure]
  | cons item rest ih =>
    change (rest.forM (fun item => record (event item)) : Sched PUnit)
      { state with log := state.log ++ [event item] } = _
    rw [ih]
    simp only [List.append_assoc, List.cons_append, List.nil_append, List.map_cons]

theorem notifyJobWaiters_spec {entry : JobEntry} (found : state.jobs.get jobId = some entry) :
    Ensures (notifyJobWaiters jobId) state fun _ after => after = { state with
      jobWaiters := state.jobWaiters.erase jobId
      log := state.log ++ (state.board none []).answers jobId entry } := by
  unfold notifyJobWaiters
  apply Ensures.get
  have answers : (state.board none []).answers jobId entry =
      ((state.jobWaiters.get jobId).getD []).map fun waiter =>
        .replied waiter.clientId waiter.requestId (.ok (.jobInfo jobId entry)) := rfl
  rw [answers]
  cases waiting : state.jobWaiters.get jobId with
  | none =>
    have kept := state.jobWaiters.erase_absent waiting
    simp [Ensures, kept, run_pure]
  | some waiters =>
    apply Ensures.modify
    simp only [found, Option.getD_some, Ensures, recordAll_eq]

/-- The end of a job makes work only if it is asked to. -/
def Board.react (board : Board) (update : TerminalStateUpdate) (jobId : JobId)
    (endScope : Option ScopeHash) : Board :=
  if update.advanceChain then board.follow jobId endScope else board

/-- The end of a leaf asks of its chain what the board then shows as due. -/
theorem endLeaf_reacts (update : TerminalStateUpdate) (endScope : Option ScopeHash) :
    Ensures (endLeaf jobId update endScope) state fun advance after =>
      after.board (ChainAdvance.due work advance) running =
        Board.react { state.board work running with
          chains := (state.board work running).setLeaf (state.jobToChain.get jobId)
            (leafStatusFor update.exitCode update.status) } update jobId endScope := by
  unfold endLeaf
  apply Ensures.get
  cases located : state.jobToChain.get jobId with
  | none => simp [Ensures, Board.react, Board.follow, Board.place, Board.setLeaf,
      SchedulerState.board, located, run_pure, ChainAdvance.due]
  | some place =>
    obtain ⟨chainId, index⟩ := place
    apply Ensures.modify
    cases advances : update.advanceChain with
    | false => simp [Ensures, Board.react, Board.setLeaf, SchedulerState.board, advances, run_pure,
        ChainAdvance.due, ChainState.setLeaf]
    | true =>
      simp only [if_true, chainAdvanceAfter]
      apply Ensures.get
      simp only [Table.get_modify, if_true]
      cases active : state.chains.get chainId with
      | none => simp [Ensures, Board.react, Board.follow, Board.place, Board.setLeaf,
          SchedulerState.board, located, active, advances, Table.get_modify, run_pure,
          ChainAdvance.due, ChainState.setLeaf]
      | some chain =>
        apply Ensures.modify
        simp [Ensures, Board.react, Board.follow, Board.place, Board.setLeaf, SchedulerState.board,
          located, active, advances, Table.get_modify, run_pure, ChainAdvance.due,
          ChainState.setLeaf]

theorem Board.follow_history (board : Board) (history : Table JobId JobStatus)
    (endScope : Option ScopeHash) :
    Board.follow { board with history := history } jobId endScope =
      { board.follow jobId endScope with history := history } := by
  have located : Board.place { board with history := history } jobId = board.place jobId := rfl
  unfold Board.follow
  rw [located]
  cases board.place jobId <;> rfl

theorem Board.react_history (board : Board) (update : TerminalStateUpdate)
    (history : Table JobId JobStatus) (endScope : Option ScopeHash) :
    Board.react { board with history := history } update jobId endScope =
      { board.react update jobId endScope with history := history } := by
  unfold Board.react
  split
  · exact board.follow_history history endScope
  · rfl

@[simp] theorem Board.follow_jobs (board : Board) (endScope : Option ScopeHash) :
    (board.follow jobId endScope).jobs = board.jobs := by
  unfold Board.follow
  cases board.place jobId <;> rfl

@[simp] theorem Board.history_follow (board : Board) (endScope : Option ScopeHash) :
    (board.follow jobId endScope).history = board.history := by
  unfold Board.follow
  cases board.place jobId <;> rfl

theorem ask_spec {α : Type} (answer : ℕ → α) :
    Ensures (ask answer) state fun result after =>
      result = answer state.question ∧ after = { state with question := state.question + 1 } :=
  ⟨rfl, rfl⟩

theorem persistJobEntry_spec (status : JobStatus) :
    Ensures (persistJobEntry env jobId status) state fun _ after =>
      after = { state with question := state.question + 1 } ∨
      after = { state with
        question := state.question + 1, history := state.history.insert jobId status } := by
  unfold persistJobEntry
  apply Ensures.bind (ask_spec env.storageError)
  rintro error after ⟨-, rfl⟩
  cases error with
  | some error => exact .inl rfl
  | none => exact .inr rfl

/-- What is left to do once the end of a job has been stored. -/
theorem settleJob_eq {entry : JobEntry} {update : TerminalStateUpdate} {persistError : Option String}
    (stored : state.jobs.get jobId = some (entry.ended update)) (ended : update.status.isTerminal) :
    Ensures (do
        if update.status.isTerminal then do
          forgetResourcePending jobId
          releaseResources jobId
        notifyJobWaiters jobId
        let chainAdvance ← endLeaf jobId update (entry.ended update).endScope
        return (⟨chainAdvance, persistError⟩ : TerminalStateOutcome)) state fun outcome after =>
      after.board (ChainAdvance.due work outcome.chainAdvance) running =
        Board.react ((state.board work running).finish jobId entry update) update jobId
          (entry.ended update).endScope := by
  simp only [ended, if_true]
  have kept := state.jobs.insert_same stored
  apply Ensures.modify
  apply Ensures.modify
  refine Ensures.bind (notifyJobWaiters_spec stored) ?_
  rintro - after rfl
  apply (endLeaf_reacts running update _).bind
  intro advance after followed
  apply Ensures.pure
  rw [followed]
  simp only [Board.finish, SchedulerState.board, kept]
  rfl

theorem Board.finish_stored (board : Board) (entry : JobEntry) (update : TerminalStateUpdate) :
    Board.finish { board with jobs := board.jobs.insert jobId (entry.ended update) } jobId entry
      update = board.finish jobId entry update := by
  unfold Board.finish
  simp only [Table.insert_insert]
  rfl

/-- The board after the first end of a job; the write to the database may fail. -/
theorem endJob_eq {entry : JobEntry} {update : TerminalStateUpdate} (work : Option Work)
    (ended : update.status.isTerminal) :
    Ensures (endJob env jobId update entry) state fun outcome after =>
      ∃ history, (history = state.history ∨ history = state.history.insert jobId update.status) ∧
        after.board (ChainAdvance.due work outcome.chainAdvance) running =
          { Board.react (Board.finish { state.board work running with question := state.question + 1 }
              jobId entry update) update jobId (entry.ended update).endScope with
            history := history } := by
  let asked : Board := { state.board work running with question := state.question + 1 }
  have stored : (state.jobs.insert jobId (entry.ended update)).get jobId =
      some (entry.ended update) := by simp [Table.get_insert]
  have same (history : Table JobId JobStatus) :
      Board.react (Board.finish { asked with
        jobs := state.jobs.insert jobId (entry.ended update), history := history } jobId entry update)
          update jobId (entry.ended update).endScope =
        { Board.react (asked.finish jobId entry update) update jobId (entry.ended update).endScope with
          history := history } :=
    (congrArg (fun board : Board => board.react update jobId (entry.ended update).endScope)
      (Board.finish_stored { asked with history := history } entry update)).trans
      (Board.react_history (asked.finish jobId entry update) update history _)
  unfold endJob
  apply Ensures.modify
  apply Ensures.bind (persistJobEntry_spec update.status)
  rintro persistError after (rfl | rfl)
  · apply (settleJob_eq running stored ended).mono
    intro outcome after reached
    exact ⟨_, .inl rfl, reached.trans (same state.history)⟩
  · apply (settleJob_eq running stored ended).mono
    intro outcome after reached
    exact ⟨_, .inr rfl, reached.trans (same _)⟩

/-- What is written about a job that has ended. -/
theorem Board.store_moves {board : Board} (jobId : JobId) (entry : JobEntry)
    {history : Table JobId JobStatus} (found : board.jobs.get jobId = some entry) (ended : entry.status.isTerminal)
    (written : history = board.history ∨ history = board.history.insert jobId entry.status) :
    Board.Moves target board { board with history := history } := by
  rcases written with rfl | rfl
  · exact .refl
  · exact .single (.store jobId entry found ended)

/-- The first end of a job is one move, up to what is written to the database. -/
theorem endJob_moves {entry : JobEntry} {update : TerminalStateUpdate}
    (found : state.jobs.get jobId = some entry) (unfinished : ¬ entry.status.isTerminal)
    (ended : update.status.isTerminal) (advances : update.advanceChain = true)
    (reason : (state.board work running).MayEnd target jobId)
    (same : ∀ due, work = some due → due.doomed = [] ∧
      ∃ index, state.jobToChain.get jobId = some (due.chainId, index))
    (proper : update.status = .done ↔ update.exitCode = 0)
    (early : ∀ due, work = some due → due.ready ≠ [] → update.status ≠ .done) :
    Ensures (endJob env jobId update entry) state fun outcome after =>
      Board.Moves target (state.board work running)
        (after.board (ChainAdvance.due work outcome.chainAdvance) running) := by
  let asked : Board := { state.board work running with question := state.question + 1 }
  have path : Board.Moves target (state.board work running)
      ((asked.finish jobId entry update).follow jobId (entry.ended update).endScope) :=
    .tail (.single .ask) (.finish jobId entry update found unfinished ended reason same proper early)
  apply (endJob_eq running work ended).mono
  rintro outcome after ⟨history, written, reached⟩
  simp only [Board.react, advances, if_true] at reached
  rw [reached]
  refine path.trans (Board.store_moves target jobId (entry.ended update) ?_ ended ?_)
  · simp [Board.finish, Table.get_insert, asked]
  · rw [Board.history_follow]
    exact written

/-- A second end of a job leaves no work. -/
theorem completeEndScope_moves {entry : JobEntry} (endScope : Option ScopeHash)
    (found : state.jobs.get jobId = some entry) (ended : entry.status.isTerminal) :
    Ensures (completeEndScope env jobId entry endScope) state fun outcome after =>
      outcome.chainAdvance = none ∧
        Board.Moves target (state.board work running) (after.board work running) := by
  unfold completeEndScope
  split
  · rename_i scope _ _
    have completed : Board.Move target (state.board work running)
        { state.board work running with
          jobs := state.jobs.insert jobId { entry with endScope := some scope } } :=
      .complete jobId entry scope found ended
    apply Ensures.modify
    apply Ensures.bind (persistJobEntry_spec entry.status)
    rintro persistError after (rfl | rfl)
    · exact ⟨rfl, .tail (.single completed) .ask⟩
    · refine ⟨rfl, .tail (.tail (.single completed) .ask) ?_⟩
      apply Board.Move.store jobId { entry with endScope := some scope } _ ended
      simp [Table.get_insert]
  · exact ⟨rfl, .refl⟩

/-- The end of a job, whether it is the first or not. -/
theorem setJobTerminalState_moves {update : TerminalStateUpdate} (ended : update.status.isTerminal)
    (advances : update.advanceChain = true)
    (reason : (state.board work running).MayEnd target jobId)
    (same : ∀ due, work = some due → due.doomed = [] ∧
      ∃ index, state.jobToChain.get jobId = some (due.chainId, index))
    (proper : update.status = .done ↔ update.exitCode = 0)
    (early : ∀ due, work = some due → due.ready ≠ [] → update.status ≠ .done) :
    Ensures (setJobTerminalState env jobId update) state fun outcome after =>
      Board.Moves target (state.board work running)
        (after.board (ChainAdvance.due work outcome.chainAdvance) running) := by
  unfold setJobTerminalState
  apply Ensures.get
  split
  · exact .refl
  · rename_i entry found
    split
    · rename_i past
      apply (completeEndScope_moves running target update.endScope found past).mono
      rintro outcome after ⟨none_due, path⟩
      rw [none_due]
      exact path
    · rename_i unfinished
      exact endJob_moves running target found unfinished ended advances reason same proper early

/-- The leaves that an advance makes ready are those of its chain. -/
def ChainAdvance.Of (chainId : ChainId) (node : ChainNode) (index : ℕ)
    (advance : Option ChainAdvance) : Prop :=
  ∀ asked, advance = some asked → asked.chainId = chainId ∧ ∃ statuses,
    asked.newlyReady.map Prod.fst = (advanceChain node index statuses).newlyReady

theorem setJobTerminalState_advance {update : TerminalStateUpdate} {chainId : ChainId} {index : ℕ}
    {node : ChainNode} (ended : update.status.isTerminal) (advances : update.advanceChain = true)
    (located : state.jobToChain.get jobId = some (chainId, index))
    (shape : (state.chains.get chainId).map ChainState.node = some node) :
    Ensures (setJobTerminalState env jobId update) state fun outcome _ =>
      ChainAdvance.Of chainId node index outcome.chainAdvance := by
  obtain ⟨chain, active, rfl⟩ := Option.map_eq_some_iff.mp shape
  unfold setJobTerminalState
  apply Ensures.get
  split
  · rintro advance ⟨⟩
  · rename_i entry found
    split
    · rename_i past
      have moved : Ensures (completeEndScope env jobId entry update.endScope) state fun outcome after =>
          outcome.chainAdvance = none ∧
            Board.Moves ⟨fun _ => True, fun _ => True⟩ (state.board none []) (after.board none []) :=
        completeEndScope_moves [] ⟨fun _ => True, fun _ => True⟩ update.endScope found past
      apply moved.mono
      rintro outcome after ⟨none_due, -⟩ advance asked
      cases none_due.symm.trans asked
    · apply (endJob_eq [] none ended).mono
      rintro outcome after ⟨history, -, reached⟩ advance asked
      have shown := congrArg Board.work reached
      simp [Board.react, advances, Board.follow, Board.place, Board.finish, Board.setLeaf,
        SchedulerState.board, located, active, Table.get_modify, asked, ChainAdvance.due,
        ChainState.setLeaf] at shown
      refine ⟨shown.1, Function.update chain.leafStatus index
        (some (leafStatusFor update.exitCode update.status)), ?_⟩
      rw [shown.2.2, List.map_map]
      exact List.map_id _

/-- A job of a cancelled leaf ends without an advance of its chain. -/
theorem abortJob_moves {chainId : ChainId} {chain : ChainState} {index : ℕ} (doomed : List ℕ)
    (ready : List (ℕ × ScopeHash)) (active : state.chains.get chainId = some chain)
    (started : chain.leafJobs.get index = some jobId) :
    Ensures (setJobTerminalState env jobId abortion) state fun _ after =>
      Board.Moves target (state.board (some ⟨chainId, index :: doomed, ready⟩) running)
        (after.board (some ⟨chainId, doomed, ready⟩) running) := by
  unfold setJobTerminalState
  apply Ensures.get
  split
  · rename_i missing
    refine .single (.skip jobId rfl active started ?_)
    intro entry found
    cases missing.symm.trans found
  · rename_i entry found
    split
    · rename_i past
      have skipped : Board.Move target (state.board (some ⟨chainId, index :: doomed, ready⟩) running)
          (state.board (some ⟨chainId, doomed, ready⟩) running) := by
        apply Board.Move.skip jobId rfl active started
        intro other same
        cases found.symm.trans same
        exact past
      apply (completeEndScope_moves running target none found past).mono
      rintro outcome after ⟨-, path⟩
      exact .head skipped path
    · rename_i unfinished
      let asked : Board :=
        { state.board (some ⟨chainId, index :: doomed, ready⟩) running with
          question := state.question + 1 }
      let finished : Board :=
        { asked.finish jobId entry abortion with work := some ⟨chainId, doomed, ready⟩ }
      have path : Board.Moves target
          (state.board (some ⟨chainId, index :: doomed, ready⟩) running) finished :=
        .tail (.single .ask) (.cancelLeaf jobId entry rfl active started found unfinished)
      apply (endJob_eq running (some ⟨chainId, doomed, ready⟩) rfl).mono
      rintro outcome after ⟨history, written, reached⟩
      have still : ChainAdvance.due (some ⟨chainId, doomed, ready⟩) outcome.chainAdvance =
          some ⟨chainId, doomed, ready⟩ := congrArg Board.work reached
      rw [still] at reached
      rw [reached]
      refine path.trans (Board.store_moves target jobId (entry.ended abortion) ?_ rfl written)
      exact (Table.get_insert ..).trans (if_pos rfl)

end Ends

section Cancels

variable {chainId : ChainId} (ready : List (ℕ × ScopeHash))

theorem cancelProcessJob_spec :
    Ensures (cancelProcessJob env jobId) state fun _ after =>
      after = { state with question := state.question + 1 } := by
  unfold cancelProcessJob killProcessJob
  apply Ensures.bind (ask_spec _)
  rintro answer after ⟨-, rfl⟩
  cases answer with
  | ok => rfl
  | error error =>
    dsimp only
    split <;> rfl

theorem cancelChainLeaf_moves (index : ℕ) (doomed : List ℕ) :
    Ensures (cancelChainLeaf env chainId index) state fun _ after =>
      Board.Moves target (state.board (some ⟨chainId, index :: doomed, ready⟩) running)
        (after.board (some ⟨chainId, doomed, ready⟩) running) := by
  unfold cancelChainLeaf
  apply Ensures.get
  cases leaf : (state.chains.get chainId).bind fun chain => chain.leafJobs.get index with
  | none => exact .single (.cancelIdle rfl leaf)
  | some jobId =>
    obtain ⟨chain, active, started⟩ := Option.bind_eq_some_iff.mp leaf
    dsimp only
    split
    · rename_i isRunning
      apply Ensures.bind cancelProcessJob_spec
      rintro answer after rfl
      cases answer with
      | error error =>
        obtain ⟨entry, found, status⟩ := (Option.any_eq_true ..).mp isRunning
        exact .tail (.single .ask) (.refuse jobId entry rfl active started found (by simpa using status))
      | ok =>
        exact Ensures.bind (abortJob_moves running target doomed ready active started)
          fun terminal after path => .head .ask path
    · rw [pure_bind]
      exact Ensures.bind (abortJob_moves running target doomed ready active started)
        fun terminal after path => path

/-- Cancelling leaves takes them off the board one by one. -/
theorem cancelChainLeaves_moves (doomed : List ℕ) :
    Ensures (cancelChainLeaves env chainId doomed) state fun _ after =>
      Board.Moves target (state.board (some ⟨chainId, doomed, ready⟩) running)
        (after.board (some ⟨chainId, [], ready⟩) running) := by
  induction doomed generalizing state with
  | nil => exact .refl
  | cons index rest ih =>
    apply Ensures.bind (cancelChainLeaf_moves running target ready index rest)
    intro error middle first
    apply Ensures.bind ih
    intro later after second
    exact first.trans second

end Cancels

section Admission

/-- The part of the state that an admission changes. -/
structure Board.Admitted (board : Board) (state : SchedulerState) : Prop where
  question : board.question = state.question
  reservations : board.reservations = state.reservations
  log : board.log = state.log

/-- The board once an admission has changed it like the state. -/
def Board.admission (board : Board) (after : SchedulerState) : Board :=
  { board with question := after.question, reservations := after.reservations, log := after.log }

/-- What an admission does to the entry of the job. -/
def ResourceAdmission.entry (entry : JobEntry) : Except String ResourceAdmission → JobEntry
  | .ok (.granted scope) => { entry with startScope := some scope }
  | _ => entry

/-- An admission touches nothing but grants and log, and a board that shows the job as unfinished can
follow it. Only a running job gets a new scope. -/
structure Admission (target : Targets) (jobId : JobId) (base : ScopeHash)
    (state : SchedulerState) (result : Except String ResourceAdmission) (after : SchedulerState) :
    Prop where
  frame : after = { state with
    question := after.question, reservations := after.reservations, log := after.log }
  pending : ∀ reason, result = .ok (.pending reason) →
    after = { state with question := state.question + 1 }
  moves : ∀ (board : Board) (entry : JobEntry), board.Admitted state →
    board.jobs.get jobId = some entry → ¬ entry.status.isTerminal →
    (∀ scope, result = .ok (.granted scope) →
      entry.status = .running ∧ entry.startScope = some base) →
    Board.Moves target board { board.admission after with
      jobs := board.jobs.insert jobId (ResourceAdmission.entry entry result) }

theorem Board.Admitted.admit_eq {board : Board} (same : board.Admitted state) :
    board.admission state = board := by
  unfold Board.admission
  rw [← same.question, ← same.reservations, ← same.log]

/-- An admission that leaves the entry of the job alone. -/
theorem Admission.of_kept {base : ScopeHash} {result : Except String ResourceAdmission}
    {after : SchedulerState}
    (frame : after = { state with
      question := after.question, reservations := after.reservations, log := after.log })
    (pending : ∀ reason, result = .ok (.pending reason) →
      after = { state with question := state.question + 1 })
    (kept : ∀ scope, result = .ok (.granted scope) → scope = base)
    (moves : ∀ (board : Board) (entry : JobEntry), board.Admitted state →
      board.jobs.get jobId = some entry → ¬ entry.status.isTerminal →
      Board.Moves target board (board.admission after)) :
    Admission target jobId base state result after where
  frame := frame
  pending := pending
  moves board entry same found unfinished starts := by
    have still : ResourceAdmission.entry entry result = entry := by
      unfold ResourceAdmission.entry
      split
      · rename_i scope
        obtain ⟨-, start⟩ := starts scope rfl
        rw [kept scope rfl, ← start]
      · rfl
    rw [still, board.jobs.insert_same found]
    exact moves board entry same found unfinished

theorem tryReserve_tracks (needs : Need) :
    Ensures (tryReserve env jobId needs) state fun result after => match result with
      | .error _ => after = { state with question := state.question + 1 }
      | .ok grants => after = { state with
          question := state.question + 1
          reservations := state.reservations.insert jobId
            ((state.reservations.get jobId).getD [] ++ grants) } := by
  unfold tryReserve
  apply Ensures.bind (ask_spec _)
  rintro answer after ⟨-, rfl⟩
  cases answer <;> rfl

theorem admitResourceScope_moves (jobId : JobId) (base : ScopeHash) (needs : Need) :
    Ensures (admitResourceScope env jobId base needs) state (Admission target jobId base state) := by
  unfold admitResourceScope
  split
  · apply Ensures.pure
    apply Admission.of_kept target rfl (by simp) (by simp)
    intro board entry same found unfinished
    rw [same.admit_eq]
  · apply Ensures.bind (tryReserve_tracks needs)
    intro answer after reached
    cases answer with
    | error reason =>
      subst reached
      apply Ensures.pure
      apply Admission.of_kept target rfl (fun _ _ => rfl) (by simp)
      intro board entry same found unfinished
      simp only [Board.admission, ← same.question, ← same.reservations, ← same.log]
      exact .single .ask
    | ok grants =>
      subst reached
      have reserved (board : Board) (entry : JobEntry) (found : board.jobs.get jobId = some entry)
          (unfinished : ¬ entry.status.isTerminal) :
          Board.Moves target board { board with
            question := board.question + 1
            reservations := board.reservations.insert jobId (board.held jobId ++ grants) } :=
        .tail (.single .ask) (.reserve jobId entry grants found unfinished)
      dsimp only
      split
      · apply Ensures.pure
        apply Admission.of_kept target rfl (by simp) (by simp)
        intro board entry same found unfinished
        have path := reserved board entry found unfinished
        simp only [Board.admission, ← same.question, ← same.reservations, ← same.log]
        exact path
      · apply Ensures.bind (ask_spec _)
        rintro answer after ⟨-, rfl⟩
        cases answer with
        | ok scope =>
          apply Ensures.modify
          apply Ensures.pure
          refine ⟨rfl, by simp, ?_⟩
          intro board entry same found unfinished starts
          obtain ⟨status, start⟩ := starts scope rfl
          have path := ((reserved board entry found unfinished).tail .ask).tail
            (.grant jobId entry base grants scope found status start fun grant member => by
              simp [Board.held, Table.get_insert, member])
          simp only [Board.admission, ResourceAdmission.entry, ← same.question, ← same.reservations,
            ← same.log]
          exact path
        | error error =>
          apply Ensures.modify
          apply Ensures.pure
          apply Admission.of_kept target rfl (by simp) (by simp)
          intro board entry same found unfinished
          have path := ((reserved board entry found unfinished).tail .ask).tail (.release jobId)
          simp only [Board.admission, ← same.question, ← same.reservations, ← same.log]
          exact path

end Admission

section Leaves

theorem spawnProcessJob_spec (plan : JobPlan) (scope : ScopeHash) (options : ProcessJobOptions) :
    Ensures (spawnProcessJob env jobId plan scope options) state fun result after => match result with
      | .error _ => after = { state with question := state.question + 1 }
      | .ok _ => after = { state with
          question := state.question + 1
          log := state.log ++ [.launched jobId plan scope options
            ((state.reservations.get jobId).getD [])] } := by
  unfold spawnProcessJob
  apply Ensures.bind (ask_spec _)
  rintro answer after ⟨-, rfl⟩
  cases answer <;> rfl

/-- A job of the chain under processing that could not be run ends at once. -/
theorem failJob_moves {chainId : ChainId} {index : ℕ} {node : ChainNode}
    (queue : List (ℕ × ScopeHash)) (endScope : ScopeHash)
    (located : state.jobToChain.get jobId = some (chainId, index))
    (shape : (state.chains.get chainId).map ChainState.node = some node) :
    Ensures (failJob env jobId endScope) state fun outcome after =>
      Board.Moves target (state.board (some ⟨chainId, [], queue⟩) running)
        (after.board (ChainAdvance.due (some ⟨chainId, [], queue⟩) outcome.chainAdvance) running) ∧
      ChainAdvance.Of chainId node index outcome.chainAdvance := by
  refine Ensures.and ?_ (setJobTerminalState_advance rfl rfl located shape)
  apply setJobTerminalState_moves running target rfl rfl
  · exact .inr (.inl (by simp [SchedulerState.board, located]))
  · rintro due same
    cases same
    exact ⟨rfl, index, located⟩
  · simp [exitCodeUnavailable]
  · simp

/-- The entry of a leaf that has just been entered. -/
def ChainContext.entry (context : ChainContext) (leaf : FlatLeaf) (index : ℕ)
    (startScope : ScopeHash) : JobEntry where
  sessionId := context.sessionId
  pipelineText := leaf.pipelineText
  status := .running
  exitCode := none
  startScope := some startScope
  endScope := none
  chainId := some context.chainId
  chainIndex := some index
  chainTotal := some context.leaves.length
  pendingReason := none

/-- The context shows the options and the owner of the chain. -/
structure ChainContext.Of (context : ChainContext) (chain : ChainState) : Prop where
  leaves : context.leaves = flattenLeaves chain.node
  options : context.options = ⟨chain.process, chain.scopeEnabled⟩
  sessionId : context.sessionId = chain.sessionId

variable {context : ChainContext} {chain : ChainState} {leaf : FlatLeaf} {index : ℕ}
variable {startScope : ScopeHash} (queue : List (ℕ × ScopeHash))

/-- The state once a leaf has been entered. -/
def SchedulerState.withLeaf (state : SchedulerState) (context : ChainContext) (chain : ChainState)
    (leaf : FlatLeaf) (index : ℕ) (startScope : ScopeHash) : SchedulerState :=
  { state with
    nextJob := state.nextJob + 1
    log := state.log ++ [.entered context.chainId index (chain.leafStatus index)]
    chains := state.chains.modify context.chainId fun chain =>
      chain.enter index state.nextJob .running
    jobToChain := state.jobToChain.insert state.nextJob (context.chainId, index)
    jobs := state.jobs.insert state.nextJob (context.entry leaf index startScope) }

theorem launchLeaf_moves (active : state.chains.get context.chainId = some chain)
    (shows : context.Of chain) (process : chain.scopeEnabled = false)
    (inside : index < chain.node.leafCount) :
    Ensures (launchLeaf env context leaf index startScope state.nextJob)
      (state.withLeaf context chain leaf index startScope) fun result after =>
        Board.Moves target
          (state.board (some ⟨context.chainId, [], (index, startScope) :: queue⟩) running)
          (after.board (ChainAdvance.due (some ⟨context.chainId, [], queue⟩)
            (result.1.bind TerminalStateOutcome.chainAdvance)) running) ∧
        ChainAdvance.Of context.chainId chain.node index
          (result.1.bind TerminalStateOutcome.chainAdvance) := by
  have fresh : (context.entry leaf index startScope).New chain.sessionId startScope :=
    ⟨shows.sessionId, rfl, rfl, rfl, by simp [ChainContext.entry, JobStatus.isTerminal]⟩
  have entered : Board.Move target
      (state.board (some ⟨context.chainId, [], (index, startScope) :: queue⟩) running)
      ((state.withLeaf context chain leaf index startScope).board
        (some ⟨context.chainId, [], queue⟩) running) :=
    .enterLeaf (context.entry leaf index startScope) rfl active process inside fresh rfl
  unfold launchLeaf
  apply Ensures.bind (admitResourceScope_moves target state.nextJob startScope _)
  intro result admitted admission
  have found : (state.withLeaf context chain leaf index startScope).jobs.get state.nextJob =
      some (context.entry leaf index startScope) := (Table.get_insert ..).trans (if_pos rfl)
  have located : (state.withLeaf context chain leaf index startScope).jobToChain.get state.nextJob =
      some (context.chainId, index) := (Table.get_insert ..).trans (if_pos rfl)
  have shown : ((state.withLeaf context chain leaf index startScope).chains.get
      context.chainId).map ChainState.node = some chain.node := by
    simp [SchedulerState.withLeaf, Table.get_modify, active, ChainState.enter]
  have path := admission.moves ((state.withLeaf context chain leaf index startScope).board
    (some ⟨context.chainId, [], queue⟩) running) _ ⟨rfl, rfl, rfl⟩ found fresh.unfinished
    fun _ _ => ⟨rfl, rfl⟩
  obtain ⟨question, reservations, log, rfl⟩ : ∃ question reservations log, admitted =
      { state.withLeaf context chain leaf index startScope with
        question := question, reservations := reservations, log := log } :=
    ⟨_, _, _, admission.frame⟩
  have changed (change : JobEntry → JobEntry) :=
    (state.withLeaf context chain leaf index startScope).jobs.modify_eq_insert change found
  cases result with
  | error error =>
    have kept := (state.withLeaf context chain leaf index startScope).jobs.insert_same found
    simp only [ResourceAdmission.entry, SchedulerState.board, kept] at path
    have explained := path.tail (.explain state.nextJob _ (some error) found)
    apply Ensures.modify
    refine Ensures.bind (failJob_moves running target queue startScope located shown) ?_
    rintro terminal after ⟨failed, later⟩
    apply Ensures.pure
    refine ⟨((ReflTransGen.single entered).trans explained).trans ?_, later⟩
    rw [changed] at failed
    exact failed
  | ok answer =>
    cases answer with
    | granted spawnScope =>
      have stored : ((state.withLeaf context chain leaf index startScope).jobs.insert state.nextJob
          { context.entry leaf index startScope with startScope := some spawnScope }).get state.nextJob
            = some { context.entry leaf index startScope with startScope := some spawnScope } :=
        (Table.get_insert ..).trans (if_pos rfl)
      have granted := ((ReflTransGen.single entered).trans path).tail .ask
      apply Ensures.modify
      rw [changed]
      apply Ensures.bind (spawnProcessJob_spec _ _ _)
      intro answer spawned reached
      cases answer with
      | ok =>
        subst reached
        apply Ensures.pure
        refine ⟨granted.tail (.launch state.nextJob _ leaf.plan spawnScope _ stored rfl rfl), ?_⟩
        rintro advance ⟨⟩
      | error error =>
        subst reached
        refine Ensures.bind (failJob_moves running target queue spawnScope located shown) ?_
        rintro terminal after ⟨failed, later⟩
        exact ⟨granted.trans failed, later⟩
    | pending reason =>
      let waiting := { context.entry leaf index startScope with
        status := .pending, pendingReason := some reason }
      let asked : SchedulerState := { state with question := state.question + 1 }
      have parked : Board.Moves target
          (state.board (some ⟨context.chainId, [], (index, startScope) :: queue⟩) running)
          ((Board.enterLeaf
            (asked.board (some ⟨context.chainId, [], (index, startScope) :: queue⟩) running)
            context.chainId chain index queue .pending waiting).park state.nextJob ⟨leaf.plan,
              startScope, context.options.process.processJobOptions context.sessionId,
              context.options.process.needs⟩) :=
        .tail (.single .ask) (.parkLeaf waiting ⟨leaf.plan, startScope, _, _⟩ rfl active process inside
          ⟨shows.sessionId, rfl, rfl, rfl, by simp [waiting, JobStatus.isTerminal]⟩ rfl)
      rw [admission.pending reason rfl]
      apply Ensures.modify
      apply Ensures.modify
      apply Ensures.pure
      refine ⟨?_, by rintro advance ⟨⟩⟩
      convert parked using 1
      simp only [SchedulerState.withLeaf, SchedulerState.board, Board.park, Board.enterLeaf,
        Table.modify_modify, Table.modify_insert]
      have overwritten : (fun chain => ChainState.setLeaf chain index .pending) ∘
          (fun chain => ChainState.enter chain index state.nextJob .running) =
            fun chain => chain.enter index state.nextJob .pending := by
        funext chain
        simp [ChainState.setLeaf, ChainState.enter]
      rw [← overwritten]
      rfl

/-- A leaf of a scope-enabled chain ends as soon as it has been entered. -/
theorem transformLeaf_moves {update : TerminalStateUpdate}
    (active : state.chains.get context.chainId = some chain) (shows : context.Of chain)
    (transforms : chain.scopeEnabled = true) (inside : index < chain.node.leafCount)
    (ended : update.status.isTerminal) (advances : update.advanceChain = true) :
    Ensures (setJobTerminalState env state.nextJob update)
      (state.withLeaf context chain leaf index startScope) fun outcome after =>
        Board.Moves target
          (state.board (some ⟨context.chainId, [], (index, startScope) :: queue⟩) running)
          (after.board (ChainAdvance.due (some ⟨context.chainId, [], queue⟩) outcome.chainAdvance)
            running) ∧
        ChainAdvance.Of context.chainId chain.node index outcome.chainAdvance := by
  have fresh : (context.entry leaf index startScope).New chain.sessionId startScope :=
    ⟨shows.sessionId, rfl, rfl, rfl, by simp [ChainContext.entry, JobStatus.isTerminal]⟩
  have found : (state.withLeaf context chain leaf index startScope).jobs.get state.nextJob =
      some (context.entry leaf index startScope) := (Table.get_insert ..).trans (if_pos rfl)
  let asked : SchedulerState := { state with question := state.question + 1 }
  have path : Board.Moves target
      (state.board (some ⟨context.chainId, [], (index, startScope) :: queue⟩) running)
      (((asked.withLeaf context chain leaf index startScope).board
        (some ⟨context.chainId, [], queue⟩) running |>.finish state.nextJob
          (context.entry leaf index startScope) update).follow state.nextJob
            ((context.entry leaf index startScope).ended update).endScope) :=
    .tail (.single .ask) (.transform (context.entry leaf index startScope) update rfl active
      transforms inside fresh ended)
  have shown : ((state.withLeaf context chain leaf index startScope).chains.get
      context.chainId).map ChainState.node = some chain.node := by
    simp [SchedulerState.withLeaf, Table.get_modify, active, ChainState.enter]
  have located : (state.withLeaf context chain leaf index startScope).jobToChain.get state.nextJob =
      some (context.chainId, index) := (Table.get_insert ..).trans (if_pos rfl)
  refine Ensures.and ?_ (setJobTerminalState_advance ended advances located shown)
  unfold setJobTerminalState
  apply Ensures.get
  rw [found]
  dsimp only
  rw [if_neg fresh.unfinished]
  apply (endJob_eq running (some ⟨context.chainId, [], queue⟩) ended).mono
  rintro outcome after ⟨history, written, reached⟩
  simp only [Board.react, advances, if_true] at reached
  rw [reached]
  refine path.trans (Board.store_moves target state.nextJob
    ((context.entry leaf index startScope).ended update) ?_ ended ?_)
  · rw [Board.follow_jobs]
    exact (Table.get_insert ..).trans (if_pos rfl)
  · rw [Board.history_follow]
    exact written

theorem runLeaf_moves (active : state.chains.get context.chainId = some chain)
    (shows : context.Of chain) (inside : index < chain.node.leafCount) :
    Ensures (runLeaf env context leaf index startScope state.nextJob)
      (state.withLeaf context chain leaf index startScope) fun result after =>
        Board.Moves target
          (state.board (some ⟨context.chainId, [], (index, startScope) :: queue⟩) running)
          (after.board (ChainAdvance.due (some ⟨context.chainId, [], queue⟩)
            (result.1.bind TerminalStateOutcome.chainAdvance)) running) ∧
        ChainAdvance.Of context.chainId chain.node index
          (result.1.bind TerminalStateOutcome.chainAdvance) := by
  have enabled : context.options.scopeEnabled = chain.scopeEnabled := by rw [shows.options]
  unfold runLeaf
  rw [enabled]
  split
  · rename_i transforms
    split
    · exact Ensures.bind (transformLeaf_moves running target queue active shows transforms inside
        rfl rfl) fun terminal after path => path
    · apply Ensures.bind (ask_spec _)
      rintro answer after ⟨-, rfl⟩
      let asked : SchedulerState := { state with question := state.question + 1 }
      have shown : asked.chains.get context.chainId = some chain := active
      cases answer with
      | ok endScope =>
        exact Ensures.bind (transformLeaf_moves running target queue shown shows transforms inside
          rfl rfl) fun terminal after path => ⟨.head .ask path.1, path.2⟩
      | error error =>
        exact Ensures.bind (transformLeaf_moves running target queue shown shows transforms inside
          rfl rfl) fun terminal after path => ⟨.head .ask path.1, path.2⟩
  · rename_i process
    exact launchLeaf_moves running target queue active shows (by simpa using process) inside

end Leaves

end CueShell
