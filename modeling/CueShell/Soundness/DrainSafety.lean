import CueShell.Proofs.SchedulerShutdown

/-! # A daemon that drains

Once the scheduler has been told to drain, it starts no work but what follows from the work it has: the
leaves of active chains, the jobs that wait for resources and the items of pending scripts. The lifecycle
of the daemon is told that all work is done only when every job has ended and no chain, script or parked
job is left, and then none ever comes back.
-/

namespace CueShell

variable {env : Env} {config : Config} {state drained later : SchedulerState}

section Shutdown

theorem Halts.idle (halts : Halts state later) (idle : state.Idle) : later.Idle where
  jobs jobId entry found := by
    obtain ⟨earlier, known, -, ended⟩ := halts.jobs jobId entry found
    exact ended (idle.jobs jobId earlier known)
  chains := by
    refine Finset.eq_empty_of_forall_notMem fun chainId member => ?_
    obtain ⟨chain, found⟩ := Option.isSome_iff_exists.mp ((later.chains.mem_keys chainId).mp member)
    obtain ⟨earlier, known, -⟩ := halts.chains chainId chain found
    have listed := (state.chains.mem_keys chainId).mpr (by simp [known])
    rw [idle.chains] at listed
    exact Finset.notMem_empty chainId listed
  scripts := by
    refine Finset.eq_empty_of_forall_notMem fun scriptId member => ?_
    obtain ⟨script, found⟩ :=
      Option.isSome_iff_exists.mp ((later.pendingScripts.mem_keys scriptId).mp member)
    have listed := (state.pendingScripts.mem_keys scriptId).mpr
      (by simp [halts.scripts scriptId script found])
    rw [idle.scripts] at listed
    exact Finset.notMem_empty scriptId listed
  parked := by rw [halts.parked, idle.parked]

theorem Halts.succession {events : List SchedulerEvent} {middle : SchedulerState}
    (halts : Halts middle later) (succession : Succession drained events middle) :
    ∃ more, Succession drained (events ++ more) later := by
  obtain ⟨more, log, quiet⟩ := halts.log
  exact ⟨more, succession.quiet quiet log halts.nextChain halts.nextJob⟩

end Shutdown

namespace SchedulerLoop

variable {loop : SchedulerLoop}

theorem prune_idle (idle : state.Idle) :
    Ensures (pruneRetainedJobHistory env config) state fun _ after => after.Idle := by
  unfold pruneRetainedJobHistory
  apply Ensures.bind (ask_spec _)
  rintro error _ ⟨-, rfl⟩
  cases error with
  | some error => exact ⟨idle.jobs, idle.chains, idle.scripts, idle.parked⟩
  | none =>
    refine ⟨fun jobId entry found => ?_, idle.chains, idle.scripts, idle.parked⟩
    have found : (state.jobs.retain fun jobId _ =>
      jobId ∉ prunedRows state.history config.maxJobHistory).get jobId = some entry := found
    rw [Table.get_retain_key] at found
    split at found
    · exact idle.jobs jobId entry found
    · cases found

/-- The daemon is told that all work is done in an idle state only. -/
def Marks (before after : SchedulerLoop) : Prop :=
  after.marks = before.marks ∨
    ∃ marked, after.marks = before.marks ++ [marked] ∧ marked.Idle ∧ after.draining ∧ after.state.Idle

theorem settle_marks {before : SchedulerLoop} (same : loop.marks = before.marks) :
    before.Marks (loop.settle env config) := by
  unfold settle Marks
  rw [← same]
  dsimp only
  split
  · rename_i done
    obtain ⟨draining, idle⟩ := (Bool.and_eq_true ..).mp done
    rw [schedulerIsIdleForRestart_iff] at idle
    exact .inr ⟨loop.state, rfl, idle, draining, prune_idle idle⟩
  · exact .inl rfl

theorem step_marks (wake : Wake) : loop.Marks (loop.step env config wake) := by
  unfold step
  split
  · exact .inl rfl
  · cases wake with
    | startupActivation =>
      dsimp only [handleWake]
      split <;> exact .inl rfl
    | timer =>
      dsimp only [handleWake]
      split <;> exact .inl rfl
    | message message =>
      cases message with
      | eval clientId requestId command =>
        dsimp only [handleWake, handleMessage, evalMessage]
        split
        · exact .inl rfl
        · exact settle_marks rfl
      | shutdown => exact .inl rfl
      | _ => exact settle_marks rfl

/-- A loop that drains, and all of whose work follows from that of the drained state. -/
structure Follows (drained : SchedulerState) (loop : SchedulerLoop) : Prop where
  draining : loop.draining
  succession : ∃ events, Succession drained events loop.state
  working : loop.stopped = false →
    loop.state.Resting ∧ ∃ events, loop.state.rest.Succeeds drained events

theorem Follows.step (follows : loop.Follows drained) (wake : Wake) :
    (loop.step env config wake).Follows drained := by
  cases open_ : loop.stopped with
  | true =>
    rw [step_stopped open_]
    exact follows
  | false =>
    obtain ⟨resting, events, succeeds⟩ := follows.working open_
    obtain ⟨middle, turns, reached⟩ : ∃ middle, Turns env config false loop.state middle ∧ _ :=
      step_state wake open_ resting (by simp [follows.draining])
    have rested : middle.Resting := resting.turns turns
    obtain ⟨later, further⟩ : ∃ later, middle.rest.Succeeds drained later := by
      clear reached rested
      induction turns with
      | refl => exact ⟨events, succeeds⟩
      | tail path turn ih =>
        obtain ⟨between, reached⟩ := ih
        obtain ⟨more, next⟩ := reached.turn (resting.turns path) turn
        exact ⟨_, next⟩
    refine ⟨step_draining wake follows.draining, ?_, ?_⟩
    · rcases reached with same | ⟨-, halts⟩
      · rw [same]
        exact ⟨later, further.toSuccession⟩
      · obtain ⟨more, succession⟩ := halts.succession further.toSuccession
        exact ⟨_, succession⟩
    · intro working
      rcases reached with same | ⟨stopped, -⟩
      · rw [same]
        exact ⟨rested, later, further⟩
      · rw [stopped] at working
        cases working

theorem Follows.run (follows : loop.Follows drained) (wakes : List Wake) :
    (loop.run env config wakes).Follows drained := by
  induction wakes generalizing loop with
  | nil => exact follows
  | cons wake wakes ih =>
    rw [SchedulerLoop.run, List.foldl_cons]
    exact ih (follows.step wake)

/-- A loop whose work is done for good, if the daemon was told so. -/
structure MarksIdle (loop : SchedulerLoop) : Prop where
  resting : loop.stopped = false → loop.state.Resting
  marks : ∀ marked ∈ loop.marks, marked.Idle
  idle : loop.marks ≠ [] → loop.draining ∧ loop.state.Idle

theorem MarksIdle.step (kept : loop.MarksIdle) (wake : Wake) :
    (loop.step env config wake).MarksIdle := by
  cases open_ : loop.stopped with
  | true =>
    rw [step_stopped open_]
    exact kept
  | false =>
    have resting := kept.resting open_
    obtain ⟨middle, turns, reached⟩ : ∃ middle, Turns env config (!loop.draining) loop.state middle ∧ _ :=
      step_state wake open_ resting (by simp)
    have idles (idle : middle.Idle) : (loop.step env config wake).state.Idle := by
      rcases reached with same | ⟨-, halts⟩
      · exact same ▸ idle
      · exact halts.idle idle
    refine ⟨?_, ?_, ?_⟩
    · intro working
      rcases reached with same | ⟨stopped, -⟩
      · rw [same]
        exact resting.turns turns
      · rw [stopped] at working
        cases working
    · intro marked member
      rcases step_marks wake with same | ⟨new, same, idle, -⟩
      · exact kept.marks marked (same ▸ member)
      · rw [same] at member
        rcases List.mem_append.mp member with old | added
        · exact kept.marks marked old
        · exact List.mem_singleton.mp added ▸ idle
    · intro told
      rcases step_marks wake with same | ⟨new, same, -, draining, idle⟩
      · obtain ⟨draining, idle⟩ := kept.idle (same ▸ told)
        rw [draining] at turns
        exact ⟨step_draining wake draining, idles (idle.turns turns)⟩
      · exact ⟨draining, idle⟩

theorem MarksIdle.run (kept : loop.MarksIdle) (wakes : List Wake) :
    (loop.run env config wakes).MarksIdle := by
  induction wakes generalizing loop with
  | nil => exact kept
  | cons wake wakes ih =>
    rw [SchedulerLoop.run, List.foldl_cons]
    exact ih (kept.step wake)

end SchedulerLoop

/-- What holds of every run of a loop that drains. -/
structure DrainsSafely (env : Env) (config : Config) (loop : SchedulerLoop) (wakes : List Wake) :
    Prop where
  successors : ∃ events, Succession loop.state events (loop.run env config wakes).state
  marks : ∀ marked ∈ (loop.run env config wakes).marks, marked.Idle
  idle : (loop.run env config wakes).marks ≠ [] → (loop.run env config wakes).state.Idle

/-- Whatever happens after the scheduler has been told to drain, only work that follows from earlier work
is started, the daemon is told that all work is done in idle states only, and they stay idle. -/
theorem drains_safely (restored : Restored state) (isStarting : Bool) (earlier wakes : List Wake) :
    DrainsSafely env config
      (SchedulerLoop.history env config state isStarting (earlier ++ [.message .beginDrain])) wakes := by
  let loop := SchedulerLoop.history env config state isStarting earlier
  have boot : Turns env config true state (SchedulerLoop.boot env config state isStarting).state :=
    SchedulerLoop.boot_turns restored isStarting
  have start : (SchedulerLoop.boot env config state isStarting).MarksIdle :=
    ⟨fun _ => restored.resting.turns boot, by simp [SchedulerLoop.boot], by simp [SchedulerLoop.boot]⟩
  have told : SchedulerLoop.history env config state isStarting (earlier ++ [.message .beginDrain]) =
      loop.step env config (.message .beginDrain) := by
    simp [loop, SchedulerLoop.history, SchedulerLoop.run, List.foldl_append]
  have begun : loop.MarksIdle := start.run earlier
  have kept : (loop.step env config (.message .beginDrain)).MarksIdle := begun.step _
  rw [told]
  refine ⟨?_, (kept.run wakes).marks, fun marked => ((kept.run wakes).idle marked).2⟩
  cases open_ : loop.stopped with
  | true =>
    -- A loop that is stopped does not hear the message.
    rw [SchedulerLoop.step_stopped open_, SchedulerLoop.run_stopped open_]
    exact ⟨[], loop.state.succeeds.toSuccession⟩
  | false =>
    have draining : (loop.step env config (.message .beginDrain)).draining = true := by
      rw [SchedulerLoop.step, if_neg (by simp [open_])]
      exact SchedulerLoop.settle_draining
    have follows : (loop.step env config (.message .beginDrain)).Follows
        (loop.step env config (.message .beginDrain)).state :=
      ⟨draining, ⟨[], (SchedulerState.succeeds _).toSuccession⟩,
        fun working => ⟨kept.resting working, [], SchedulerState.succeeds _⟩⟩
    exact (follows.run wakes).succession

/-- A job runs when the drain begins, and ends after it. -/
theorem drains_safely_finished :
    Restored SchedulerState.new ∧
      DrainsSafely Env.calm ⟨⟨[], []⟩, ⟨[]⟩, false, 10⟩
        (SchedulerLoop.history Env.calm ⟨⟨[], []⟩, ⟨[]⟩, false, 10⟩ SchedulerState.new false
          ([.message (.connect 1 "s" false), .message (.eval 1 1
            (.single (.run (.leaf (.pipeline ⟨[⟨["make"], none⟩]⟩)) {})))] ++
            [.message .beginDrain]))
        [.message (.jobFinished 1 0), .timer] :=
  ⟨SchedulerState.new_restored, drains_safely SchedulerState.new_restored false _ _⟩

end CueShell
