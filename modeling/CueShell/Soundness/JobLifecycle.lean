import CueShell.Proofs.SchedulerQueue

/-! # The life of a job

A job is pending, runs and ends; nothing that happens later changes how it ended, and its number is
never given to another job. While it is pending it stands in the queue for resources, and once it has
ended it holds none.
-/

namespace CueShell

variable {env : Env} {config : Config} {state later : SchedulerState} {isOpen : Bool}

section Runs

theorem Board.Flows.job_known {occasion : Occasion} {before after : Board} {jobId : JobId}
    (flows : Board.Flows config occasion before after) (orderly : before.Orderly)
    (old : jobId < before.nextJob) {entry : JobEntry} (found : after.jobs.get jobId = some entry) :
    before.nextJob ≤ after.nextJob ∧
      ∃ known, before.jobs.get jobId = some known ∧ known.Evolves entry := by
  have bound {last : Board} (path : Board.Flows config occasion before last) :
      before.nextJob ≤ last.nextJob := by
    induction path with
    | refl => exact le_rfl
    | tail _ flow ih => exact ih.trans flow.nextJob_le
  refine ⟨bound flows, ?_⟩
  induction flows generalizing entry with
  | refl => exact ⟨entry, found, .refl entry⟩
  | tail path flow ih =>
    obtain ⟨middle, known, evolves⟩ :=
      flow.job_known (orderly.flows path) (old.trans_le (bound path)) found
    obtain ⟨first, present, earlier⟩ := ih known
    exact ⟨first, present, earlier.trans evolves⟩

theorem nextJob_le_of_turns (turns : Turns env config isOpen state later) : state.nextJob ≤ later.nextJob := by
  induction turns with
  | refl => exact le_rfl
  | tail path turn ih =>
    refine ih.trans ?_
    rcases turn.kinds with ⟨occasion, round⟩ | ⟨sessions, question, rfl⟩
    · have bound {first last : Board} (path : Board.Flows config occasion first last) :
          first.nextJob ≤ last.nextJob := by
        induction path with
        | refl => exact le_rfl
        | tail _ flow ih => exact ih.trans flow.nextJob_le
      exact bound round.flows
    · exact le_rfl

/-- A job with a number that was given out is the job it was. -/
theorem SchedulerState.Resting.job_turns (resting : state.Resting)
    (turns : Turns env config isOpen state later) {jobId : JobId} (old : jobId < state.nextJob)
    {entry : JobEntry} (found : later.jobs.get jobId = some entry) :
    ∃ known, state.jobs.get jobId = some known ∧ known.Evolves entry := by
  induction turns generalizing entry with
  | refl => exact ⟨entry, found, .refl entry⟩
  | tail path turn ih =>
    have rested := resting.turns path
    rcases turn.kinds with ⟨occasion, round⟩ | ⟨sessions, question, rfl⟩
    · have small := old.trans_le (nextJob_le_of_turns path)
      obtain ⟨-, middle, known, evolves⟩ := round.flows.job_known rested.orderly small found
      obtain ⟨first, present, earlier⟩ := ih known
      exact ⟨first, present, earlier.trans evolves⟩
    · exact ih found

end Runs

/-- Whatever happens after some time, a job known by then is either dropped for good or goes on: it never
waits again once it has run, and never changes its status or exit code once it has ended. Its session
stays the same, and jobs that come later have larger numbers. -/
theorem job_status_machine (restored : Restored state) (isStarting : Bool) (earlier later : List Wake)
    (still : (SchedulerLoop.history env config state isStarting (earlier ++ later)).stopped = false) :
    let before := (SchedulerLoop.history env config state isStarting earlier).state
    let after := (SchedulerLoop.history env config state isStarting (earlier ++ later)).state
    ∀ jobId entry, after.jobs.get jobId = some entry →
      (∃ known, before.jobs.get jobId = some known ∧ known.Evolves entry) ∨ before.nextJob ≤ jobId := by
  intro before after jobId entry found
  have whole : SchedulerLoop.history env config state isStarting (earlier ++ later) =
      (SchedulerLoop.history env config state isStarting earlier).run env config later :=
    List.foldl_append ..
  rw [whole] at still
  have open_ := SchedulerLoop.open_of_run still
  have resting : before.Resting :=
    restored.resting.turns (SchedulerLoop.history_turns restored isStarting earlier open_)
  have turns : Turns env config true before after := by
    have reached : Turns env config true before
        ((SchedulerLoop.history env config state isStarting earlier).run env config later).state :=
      SchedulerLoop.run_turns later resting (fun _ => rfl) still
    rwa [← whole] at reached
  rcases Nat.lt_or_ge jobId before.nextJob with old | new
  · exact .inl (resting.job_turns turns old found)
  · exact .inr new

/-- A client runs `make`. -/
def makeStarted : List Wake :=
  [.message (.connect 1 "s" false), .message (.eval 1 1 (.single (.run (.leaf
    (.pipeline ⟨[⟨["make"], none⟩]⟩)) {})))]

theorem job_status_machine_make :
    let run := SchedulerLoop.history Env.calm ⟨⟨[], []⟩, ⟨[]⟩, false, 10⟩ SchedulerState.new false
    let twice : List Wake := [.message (.jobFinished 1 0), .message (.jobFinished 1 2)]
    ∀ jobId entry, (run (makeStarted ++ twice)).state.jobs.get jobId = some entry →
      (∃ known, (run makeStarted).state.jobs.get jobId = some known ∧ known.Evolves entry) ∨
        (run makeStarted).state.nextJob ≤ jobId :=
  job_status_machine SchedulerState.new_restored false makeStarted _ rfl

/-- The jobs that wait for resources, as the queue, the table of admissions and the jobs see them, and the
jobs that hold resources. -/
structure SchedulerState.QueueInOrder (state : SchedulerState) : Prop where
  distinct : state.pendingResourceJobs.Nodup
  parked : ∀ jobId, (state.pendingResource.get jobId).isSome ↔ jobId ∈ state.pendingResourceJobs
  pending : ∀ jobId, jobId ∈ state.pendingResourceJobs ↔
    ∃ entry, state.jobs.get jobId = some entry ∧ entry.status = .pending
  held : ∀ jobId, (state.reservations.get jobId).isSome →
    ∃ entry, state.jobs.get jobId = some entry ∧ ¬ entry.status.isTerminal

/-- The queue for resources is in order at all times: a job that has run or ended is never queued again,
and the resources of a job that has ended are given back. -/
theorem queue_in_order (restored : Restored state) (isStarting : Bool) (wakes : List Wake)
    (still : (SchedulerLoop.history env config state isStarting wakes).stopped = false) :
    (SchedulerLoop.history env config state isStarting wakes).state.QueueInOrder := by
  have tended : (SchedulerLoop.history env config state isStarting wakes).state.rest.Tended :=
    restored.resting.tended_turns restored.tended
      (SchedulerLoop.history_turns restored isStarting wakes still)
  refine ⟨tended.distinct, fun jobId => ?_, tended.pending, fun jobId holds => ?_⟩
  · exact (Table.mem_keys ..).symm.trans (tended.parked jobId)
  · exact tended.held jobId ((Table.mem_keys ..).mpr holds)

theorem queue_in_order_make :
    (SchedulerLoop.history Env.calm ⟨⟨[], []⟩, ⟨[]⟩, false, 10⟩ SchedulerState.new false
      makeStarted).state.QueueInOrder :=
  queue_in_order SchedulerState.new_restored false makeStarted rfl

end CueShell
