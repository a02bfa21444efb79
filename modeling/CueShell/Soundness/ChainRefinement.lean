import CueShell.Proofs.SchedulerCourses

/-! # The scheduler carries out runs of chains

The rules of chains are stated over runs, in which a leaf ends and its chain advances at once. The
scheduler works on many chains, cancels and starts leaves one by one, lets leaves wait for resources and
is interrupted by commands. Still every chain of processes it works on stands where some run of that chain
stands, and its leaves and the jobs of its leaves say the same. What has to be excluded is a process that
could not be killed, and a job that waited for resources and could not be started.
-/

namespace CueShell

variable {env : Env} {config : Config} {state : SchedulerState}

/-- The chain stands where a run stands, as far as the view of its table goes. -/
def ChainState.Stands (chain : ChainState) (view : Statuses → Statuses) : Prop :=
  ∃ run, ChainRun.Scheduled chain.node run ∧ chain.leafStatus = view run.statuses ∧
    ∀ index, index ∈ run.started ↔ (chain.leafJobs.get index).isSome

section Faults

/-- Whether an event speaks of a process that could not be killed or started. -/
def SchedulerEvent.isFault : SchedulerEvent → Bool
  | .killRefused _ | .retryFailed _ => true
  | _ => false

theorem Smooth.of_all {log : List SchedulerEvent} (none : log.all (!·.isFault) = true) : Smooth log where
  killed jobId member := by
    have calm := List.all_eq_true.mp none _ member
    cases calm
  admitted jobId member := by
    have calm := List.all_eq_true.mp none _ member
    cases calm

/-- A client runs `make ~> test`. -/
def makeThenTest : List Wake :=
  [.message (.connect 1 "s" false), .message (.eval 1 1 (.single (.run (.serial
    (.leaf (.pipeline ⟨[⟨["make"], none⟩]⟩)) .always (.leaf (.pipeline ⟨[⟨["test"], none⟩]⟩))) {})))]

end Faults

/-- Every chain of a running scheduler is in the middle of a run, and has a leaf that has not ended. A
chain it has closed had been run to its end, or was cut off by a user. -/
theorem chains_follow_runs (restored : Restored state) (isStarting : Bool) (wakes : List Wake)
    (still : (SchedulerLoop.history env config state isStarting wakes).stopped = false)
    (smooth : Smooth (SchedulerLoop.history env config state isStarting wakes).state.log) :
    let last := (SchedulerLoop.history env config state isStarting wakes).state
    (∀ chainId chain, last.chains.get chainId = some chain → chain.scopeEnabled = false →
      ¬ isChainTerminal chain.node chain.leafStatus ∧ chain.Stands id) ∧
    ∀ chainId chain, .closed chainId chain ∈ last.log → chain.scopeEnabled = false →
      isChainTerminal chain.node chain.leafStatus ∧ chain.Stands Statuses.cutOff := by
  have sound : (SchedulerLoop.history env config state isStarting wakes).state.rest.Sound :=
    restored.resting.sound_turns restored.sound
      (SchedulerLoop.history_turns restored isStarting wakes still) smooth
  refine ⟨fun chainId chain active process => ?_, fun chainId chain closed process => ?_⟩
  · have rests : (SchedulerLoop.history env config state isStarting wakes).state.rest.Rests chainId :=
      .of_none rfl
    have unfinished := sound.tracked.open_ chainId chain active rests
    have course := sound.tracked.course chainId chain active process
    rw [rests.duties.1, rests.duties.2] at course
    obtain ⟨run, scheduled, statuses, started⟩ :=
      course.open_ (fun ended => unfinished (isChainTerminal_iff.mpr ended))
    exact ⟨unfinished, run, scheduled, statuses.symm, started⟩
  · obtain ⟨ended, course⟩ := sound.tracked.closed chainId chain closed process
    obtain ⟨run, scheduled, statuses, started⟩ := course.ended (isChainTerminal_iff.mp ended)
    exact ⟨ended, run, scheduled, statuses, started⟩

theorem chains_follow_runs_make :
    let last := (SchedulerLoop.history Env.calm ⟨⟨[], []⟩, ⟨[]⟩, false, 10⟩ SchedulerState.new false
      makeThenTest).state
    (∀ chainId chain, last.chains.get chainId = some chain → chain.scopeEnabled = false →
      ¬ isChainTerminal chain.node chain.leafStatus ∧ chain.Stands id) ∧
    ∀ chainId chain, .closed chainId chain ∈ last.log → chain.scopeEnabled = false →
      isChainTerminal chain.node chain.leafStatus ∧ chain.Stands Statuses.cutOff :=
  chains_follow_runs SchedulerState.new_restored false makeThenTest rfl (.of_all (by decide +kernel))

/-- Leaves and jobs name each other, and say the same. -/
structure SchedulerState.LeavesAgree (state : SchedulerState) : Prop where
  placed : ∀ chainId chain index jobId, state.chains.get chainId = some chain →
    chain.leafJobs.get index = some jobId → state.jobToChain.get jobId = some (chainId, index)
  owner : ∀ chainId chain index jobId, state.chains.get chainId = some chain →
    chain.scopeEnabled = false → state.jobToChain.get jobId = some (chainId, index) →
      chain.leafJobs.get index = some jobId
  shows_ : ∀ chainId chain index jobId, state.chains.get chainId = some chain →
    chain.leafJobs.get index = some jobId →
      LeafStatus.Shows (chain.leafStatus index) (state.jobs.get jobId)

/-- No job but the one of a leaf claims the leaf, the status of the leaf is that of its job, and once the
entry of the job is dropped the leaf still shows an end. -/
theorem leaves_agree (restored : Restored state) (isStarting : Bool) (wakes : List Wake)
    (still : (SchedulerLoop.history env config state isStarting wakes).stopped = false)
    (smooth : Smooth (SchedulerLoop.history env config state isStarting wakes).state.log) :
    (SchedulerLoop.history env config state isStarting wakes).state.LeavesAgree := by
  have turns : Turns env config true state _ := SchedulerLoop.history_turns restored isStarting wakes still
  have sound := restored.resting.sound_turns restored.sound turns smooth
  refine ⟨(restored.resting.turns turns).orderly.leaves, sound.paired.owner, ?_⟩
  exact fun _ _ _ _ active started => sound.paired.shown active started

theorem leaves_agree_make :
    (SchedulerLoop.history Env.calm ⟨⟨[], []⟩, ⟨[]⟩, false, 10⟩ SchedulerState.new false
      makeThenTest).state.LeavesAgree :=
  leaves_agree SchedulerState.new_restored false makeThenTest rfl (.of_all (by decide +kernel))

end CueShell
