import CueShell.Proofs.SchedulerWaits

/-! # Answers to those who wait

A client that asks for the end of a job it may see is heard, and answered exactly once: not before the
job has ended, and with the status the job ends with. It makes no difference how the job ends, as an exit,
by a user, with its chain or because it could not be started.
-/

namespace CueShell

variable {env : Env} {config : Config} {state : SchedulerState}
variable {clientId : ClientId} {requestId : UInt32} {jobId : JobId} {id : String}

/-- The clients of a named session see the jobs of their session, other clients see all jobs. -/
structure SchedulerState.Sees (state : SchedulerState) (clientId : ClientId) (jobId : JobId) : Prop where
  connected : (state.sessions.sessionForClient clientId).isSome
  job : ∃ entry, state.jobs.get jobId = some entry ∧
    ∀ session, state.namedSessionIdForClient clientId = some session → entry.sessionId = some session

/-- How the requests for the ends of jobs have been answered. -/
structure SchedulerState.Answers (state : SchedulerState) : Prop where
  /-- Once a job has ended, each request is answered as often as it was made. -/
  once : ∀ clientId requestId jobId,
    (∀ entry, state.jobs.get jobId = some entry → entry.status.isTerminal) →
      countTells clientId requestId jobId state.log = countAsks clientId requestId jobId state.log
  never : ∀ clientId requestId jobId entry, state.jobs.get jobId = some entry →
    ¬ entry.status.isTerminal → countTells clientId requestId jobId state.log = 0
  /-- At no time there were more answers than requests. -/
  ordered : ∀ clientId requestId jobId part, part <+: state.log →
    countTells clientId requestId jobId part ≤ countAsks clientId requestId jobId part
  /-- An answer tells how the job has ended for good. -/
  final : ∀ clientId requestId jobId entry,
    .replied clientId requestId (.ok (.jobInfo jobId entry)) ∈ state.log →
      entry.status.isTerminal ∧ ∀ known, state.jobs.get jobId = some known →
        known.status = entry.status ∧ known.exitCode = entry.exitCode

theorem Board.Waiting.answers (waiting : state.rest.Waiting) : state.Answers where
  once clientId requestId jobId ended := by
    have counted := waiting.counted clientId requestId jobId
    have nobody : state.rest.waiting clientId requestId jobId = 0 := by
      have absent : jobId ∉ state.rest.jobWaiters.keys := by
        intro member
        obtain ⟨entry, found, unfinished⟩ := waiting.open_ jobId member
        exact unfinished (ended entry found)
      rw [Board.waiting, Table.get_of_not_mem _ absent]
      rfl
    rw [nobody] at counted
    exact counted.symm
  never clientId requestId jobId entry found unfinished := by
    by_contra told
    obtain ⟨answer, member⟩ := countTells_ne_zero told
    have final := waiting.told clientId requestId jobId answer member
    exact unfinished (by rw [(final.same entry found).1]; exact final.ended)
  ordered := waiting.ordered
  final clientId requestId jobId entry member := by
    have final := waiting.told clientId requestId jobId entry member
    exact ⟨final.ended, final.same⟩

/-- What a request for the end of a job adds to the log: the request, and the answer if it can be given
at once. -/
def Noted (clientId : ClientId) (requestId : UInt32) (jobId : JobId)
    (before after : List SchedulerEvent) : Prop :=
  ∃ answer, after = before ++ .waits clientId requestId jobId :: answer ∧
    (answer = [] ∨ ∃ entry, answer = [.replied clientId requestId (.ok (.jobInfo jobId entry))])

theorem waitCommand_noted (named : parseJobId id = some jobId) (sees : state.Sees clientId jobId) :
    Ensures (do
      let response ← evalCommand env config (.single (.wait id)) clientId requestId
      response.forM (reply clientId requestId)) state fun _ after =>
        Noted clientId requestId jobId state.log after.log := by
  obtain ⟨entry, found, own⟩ := sees.job
  have allowed : Ensures (authorizeSessionOwnedTarget env (state.namedSessionIdForClient clientId)
      (.job jobId)) state fun allowed after =>
        allowed = true ∧ after = { state with question := state.question + 1 } := by
    refine ⟨?_, rfl⟩
    cases session : state.namedSessionIdForClient clientId with
    | none => rfl
    | some name =>
      change decide (targetOwner _ _ (.job jobId) = some (some name)) = true
      simp [targetOwner, found, own name session]
  simp only [evalCommand, handleWaitCommand, named, bind_assoc]
  apply Ensures.get
  refine allowed.bind ?_
  rintro _ _ ⟨rfl, rfl⟩
  simp only [if_true, bind_assoc]
  apply Ensures.get
  simp only [found, bind_assoc]
  apply Ensures.modify
  split
  · exact ⟨[.replied clientId requestId (.ok (.jobInfo jobId entry))], List.append_assoc ..,
      .inr ⟨entry, rfl⟩⟩
  · exact ⟨[], rfl, .inl rfl⟩

namespace SchedulerLoop

variable {loop : SchedulerLoop}

theorem settle_log : (loop.settle env config).state.log = loop.state.log := by
  have pruned (state : SchedulerState) : Ensures (pruneRetainedJobHistory env config) state
      fun _ after => after.log = state.log := by
    apply Ensures.bind (ask_spec _)
    rintro error _ ⟨-, rfl⟩
    cases error <;> rfl
  unfold settle
  dsimp only
  split <;> exact pruned _

/-- The message of a client that may see a job. -/
theorem step_noted (open_ : loop.stopped = false) (named : parseJobId id = some jobId)
    (sees : (sweepSessions env loop.state).2.Sees clientId jobId) :
    Noted clientId requestId jobId loop.state.log
      (loop.step env config (.message (.eval clientId requestId (.single (.wait id))))).state.log := by
  have accepted (closed : Bool) :
      refusal closed (sweepSessions env loop.state).2 (.single (.wait id)) clientId = none := by
    obtain ⟨session, found⟩ := Option.isSome_iff_exists.mp sees.connected
    simp [refusal, found, commandStartsExecution]
  have noted : Ensures (do
      let response ← evalCommand env config (.single (.wait id)) clientId requestId
      response.forM (reply clientId requestId)) (sweepSessions env loop.state).2 fun _ after =>
        Noted clientId requestId jobId (sweepSessions env loop.state).2.log after.log :=
    waitCommand_noted named sees
  rw [step, if_neg (by simp [open_])]
  dsimp only [handleWake, handleMessage, evalMessage, after]
  rw [accepted, settle_log]
  exact noted

end SchedulerLoop

/-- A request for the end of a job is noted when it is made, and every request that was noted is answered
exactly once. -/
theorem waits_answered (restored : Restored state) (isStarting : Bool) (earlier later : List Wake)
    (named : parseJobId id = some jobId)
    (sees : (sweepSessions env
      (SchedulerLoop.history env config state isStarting earlier).state).2.Sees clientId jobId)
    (still : (SchedulerLoop.history env config state isStarting
      (earlier ++ .message (.eval clientId requestId (.single (.wait id))) :: later)).stopped = false) :
    let before := (SchedulerLoop.history env config state isStarting earlier).state
    let after := (SchedulerLoop.history env config state isStarting
      (earlier ++ [.message (.eval clientId requestId (.single (.wait id)))])).state
    let last := (SchedulerLoop.history env config state isStarting
      (earlier ++ .message (.eval clientId requestId (.single (.wait id))) :: later)).state
    Noted clientId requestId jobId before.log after.log ∧ after.log <+: last.log ∧ last.Answers := by
  let loop := SchedulerLoop.history env config state isStarting earlier
  let asked := loop.step env config (.message (.eval clientId requestId (.single (.wait id))))
  have whole : SchedulerLoop.history env config state isStarting
      (earlier ++ .message (.eval clientId requestId (.single (.wait id))) :: later) =
        asked.run env config later := by
    simp [asked, loop, SchedulerLoop.history, SchedulerLoop.run, List.foldl_append]
  have middle : SchedulerLoop.history env config state isStarting
      (earlier ++ [.message (.eval clientId requestId (.single (.wait id)))]) = asked := by
    simp [asked, loop, SchedulerLoop.history, SchedulerLoop.run, List.foldl_append]
  rw [whole] at still
  have open_ : asked.stopped = false := SchedulerLoop.open_of_run still
  have start : loop.stopped = false := SchedulerLoop.open_of_step open_
  have first : Turns env config true state loop.state :=
    SchedulerLoop.history_turns restored isStarting earlier start
  have resting : loop.state.Resting := restored.resting.turns first
  have second : Turns env config true loop.state asked.state :=
    SchedulerLoop.step_turns _ resting (fun _ => rfl) open_
  have third : Turns env config true asked.state (asked.run env config later).state :=
    SchedulerLoop.run_turns later (resting.turns second) (fun _ => rfl) still
  rw [whole, middle]
  refine ⟨SchedulerLoop.step_noted start named sees, third.log, ?_⟩
  have waiting := restored.resting.waiting_turns restored.waiting (first.trans (second.trans third))
  exact waiting.answers

/-- A client waits for a job it has just started; the job ends after that. -/
theorem waits_answered_finished :
    let config : Config := ⟨⟨[], []⟩, ⟨[]⟩, false, 10⟩
    let earlier : List Wake := [.message (.connect 1 "s" false), .message (.eval 1 1
      (.single (.run (.leaf (.pipeline ⟨[⟨["make"], none⟩]⟩)) {})))]
    let asked : Wake := .message (.eval 1 2 (.single (.wait "J1")))
    let run := SchedulerLoop.history Env.calm config SchedulerState.new false
    Noted 1 2 1 (run earlier).state.log (run (earlier ++ [asked])).state.log ∧
      (run (earlier ++ [asked])).state.log <+:
        (run (earlier ++ asked :: [.message (.jobFinished 1 0)])).state.log ∧
      (run (earlier ++ asked :: [.message (.jobFinished 1 0)])).state.Answers :=
  waits_answered SchedulerState.new_restored false _ _ (by decide)
    ⟨by decide, _, rfl, fun _ same => same⟩ rfl

end CueShell
