import CueShell.Model.RestartRun

/-! # Admission after a stop

A stop closes the admission of a successor that is still starting. It opens again exactly if the
startup is marked as completed after the stop and then announced: the mark stores `Running` whatever
the state is.
-/

namespace CueShell.Successor

variable {successor : Successor}

/-- Execution is ready only at the end of a startup, and a stop that was acknowledged holds. -/
structure Held (successor : Successor) : Prop where
  ready : successor.life.executionReady → successor.stage = .ready
  closed : successor.stopped → successor.life.executionAdmissionClosed

/-- A request for a restart is refused where admission is closed. -/
theorem requestRestart_closed (answers : RestartAnswers) {life : DaemonLifecycle}
    (file : Option RestartRecord) (closed : life.executionAdmissionClosed) :
    (DaemonLifecycle.requestRestart answers life file).2.1 = life := by
  unfold DaemonLifecycle.requestRestart
  split
  · rfl
  · split
    · rfl
    · rfl

/-- A stop leaves `Draining` behind, or fails and changes neither the state nor the readiness. -/
theorem cancelRestartForShutdown_spec (io : RecordIo) (uuid : String) (life : DaemonLifecycle)
    (file : Option RestartRecord) :
    (DaemonLifecycle.cancelRestartForShutdown io uuid life file).2.1.executionReady =
        life.executionReady ∧
    ((DaemonLifecycle.cancelRestartForShutdown io uuid life file).1 = .ok () ∧
        (DaemonLifecycle.cancelRestartForShutdown io uuid life file).2.1.state = .draining ∨
      (∃ error, (DaemonLifecycle.cancelRestartForShutdown io uuid life file).1 = .error error) ∧
        (DaemonLifecycle.cancelRestartForShutdown io uuid life file).2.1.state = life.state) := by
  have fence : (DaemonLifecycle.cancelRestartFence io uuid life file).2.1.executionReady =
      life.executionReady ∧
      (DaemonLifecycle.cancelRestartFence io uuid life file).2.1.state = life.state := by
    unfold DaemonLifecycle.cancelRestartFence
    split <;> exact ⟨rfl, rfl⟩
  unfold DaemonLifecycle.cancelRestartForShutdown
  generalize DaemonLifecycle.cancelRestartFence io uuid life file = cancelled at fence
  obtain ⟨answer, later, stored⟩ := cancelled
  cases answer with
  | ok done => exact ⟨fence.1, .inl ⟨rfl, rfl⟩⟩
  | error error => exact ⟨fence.1, .inr ⟨⟨error, rfl⟩, fence.2⟩⟩

theorem failStopRestart_spec (io : RecordIo) (uuid : String) (life : DaemonLifecycle)
    (file : Option RestartRecord) :
    (DaemonLifecycle.failStopRestart io uuid life file).2.1.executionReady = life.executionReady ∧
    ((DaemonLifecycle.failStopRestart io uuid life file).1 = .ok () ∧
        (DaemonLifecycle.failStopRestart io uuid life file).2.1.state = .draining ∨
      (∃ error, (DaemonLifecycle.failStopRestart io uuid life file).1 = .error error) ∧
        (DaemonLifecycle.failStopRestart io uuid life file).2.1.state = life.state) := by
  have stop := cancelRestartForShutdown_spec io uuid life file
  unfold DaemonLifecycle.failStopRestart
  generalize DaemonLifecycle.cancelRestartForShutdown io uuid life file = stopped at stop
  obtain ⟨answer, later, stored⟩ := stopped
  cases answer with
  | ok done => exact stop
  | error error => exact stop

/-- A stop, acknowledged or not, keeps what holds. -/
theorem Held.afterStop (held : successor.Held)
    {result : Except String Unit × DaemonLifecycle × Option RestartRecord}
    (ready : result.2.1.executionReady = successor.life.executionReady)
    (outcome : result.1 = .ok () ∧ result.2.1.state = .draining ∨
      (∃ error, result.1 = .error error) ∧ result.2.1.state = successor.life.state) :
    (successor.afterStop result).Held := by
  obtain ⟨answer, life, file⟩ := result
  rcases outcome with ⟨rfl, draining⟩ | ⟨⟨error, rfl⟩, same⟩
  · refine ⟨fun now => held.ready (ready ▸ now), fun _ => ?_⟩
    have state : life.state = .draining := draining
    simp [Successor.afterStop, DaemonLifecycle.executionAdmissionClosed, state]
  · refine ⟨fun now => held.ready (ready ▸ now), fun stopped => ?_⟩
    have closed := held.closed stopped
    have state : life.state = successor.life.state := same
    have readiness : life.executionReady = successor.life.executionReady := ready
    rw [DaemonLifecycle.executionAdmissionClosed, ← state, ← readiness] at closed
    exact closed

theorem Held.unready (held : successor.Held) (early : successor.stage ≠ .ready) :
    successor.life.executionReady = false := by
  cases now : successor.life.executionReady with
  | false => rfl
  | true => exact absurd (held.ready now) early

/-- Every call but the announcement keeps a stop in force. -/
theorem Held.step (held : successor.Held) {call : SuccessorCall}
    (quiet : ¬ successor.Announces call) : (successor.step call).Held := by
  cases call with
  | complete io =>
    dsimp only [Successor.step]
    split
    · rename_i probed
      have unready := held.unready (by simp [probed])
      split
      all_goals exact ⟨fun now => by simp [unready] at now, held.closed⟩
    · exact held
  | markCompleted =>
    dsimp only [Successor.step]
    split
    · rename_i committed
      have unready := held.unready (by simp [committed])
      refine ⟨fun now => ?_, fun _ => ?_⟩
      · simp [DaemonLifecycle.markStartupRestartCompleted, unready] at now
      · simp [DaemonLifecycle.executionAdmissionClosed, DaemonLifecycle.markStartupRestartCompleted,
          unready]
    · exact held
  | markReady =>
    dsimp only [Successor.step]
    split
    · rename_i marked
      refine ⟨fun _ => rfl, fun stopped => ?_⟩
      have closed := held.closed stopped
      have away : successor.life.state ≠ .running := fun running => quiet ⟨stopped, marked, running⟩
      simpa [DaemonLifecycle.markStartupExecutionReady, away] using closed
    · exact held
  | cancelForShutdown io uuid =>
    obtain ⟨ready, outcome⟩ := cancelRestartForShutdown_spec io uuid successor.life successor.file
    exact held.afterStop ready outcome
  | failStop io uuid =>
    obtain ⟨ready, outcome⟩ := failStopRestart_spec io uuid successor.life successor.file
    exact held.afterStop ready outcome
  | requestRestart answers =>
    cases admission : successor.life.executionAdmissionClosed with
    | true =>
      have same : (successor.step (.requestRestart answers)).life = successor.life :=
        requestRestart_closed answers successor.file admission
      refine ⟨fun now => held.ready (same ▸ now), fun _ => ?_⟩
      rw [same]
      exact admission
    | false =>
      have ready : successor.life.executionReady := by
        simp only [DaemonLifecycle.executionAdmissionClosed, Bool.or_eq_false_iff] at admission
        simpa using admission.2
      refine ⟨fun _ => held.ready ready, fun stopped => ?_⟩
      have closed := held.closed stopped
      rw [admission] at closed
      cases closed
  | elsewhere io call => exact ⟨held.ready, held.closed⟩

variable (ownership : RestartOwnership) (daemonInstanceId : String) (ticket : RestartRecord)
variable (file : Option RestartRecord)

theorem held_new : (Successor.new ownership daemonInstanceId ticket file).Held where
  ready now := by simp [Successor.new, DaemonLifecycle.newWithStartup] at now
  closed stopped := by simp [Successor.new] at stopped

theorem run_append (successor : Successor) (first second : List SuccessorCall) :
    successor.run (first ++ second) = (successor.run first).run second :=
  List.foldl_append

theorem run_held (held : successor.Held) (calls : List SuccessorCall)
    (quiet : ∀ earlier call later, calls = earlier ++ call :: later →
      ¬ (successor.run earlier).Announces call) : (successor.run calls).Held := by
  induction calls generalizing successor with
  | nil => exact held
  | cons call rest ih =>
    refine ih (held.step (quiet [] call rest rfl)) fun earlier other later split => ?_
    exact quiet (call :: earlier) other later (by rw [split, List.cons_append])

/-- In a run of any calls on the lifecycle of a successor, every state after an acknowledged stop keeps
admission closed, if and only if no call announces a startup that was marked as completed after the
stop. -/
theorem stop_keeps_admission_closed_iff (calls : List SuccessorCall) :
    (∀ earlier later, calls = earlier ++ later →
      ((Successor.new ownership daemonInstanceId ticket file).run earlier).stopped →
      ((Successor.new ownership daemonInstanceId ticket file).run
        earlier).life.executionAdmissionClosed) ↔
    ∀ earlier call later, calls = earlier ++ call :: later →
      ¬ ((Successor.new ownership daemonInstanceId ticket file).run earlier).Announces call := by
  constructor
  · rintro closed earlier call later rfl announces
    cases call with
    | markReady =>
      obtain ⟨stopped, marked, running⟩ := announces
      have after := closed (earlier ++ [.markReady]) later (by simp)
      rw [run_append] at after
      generalize (Successor.new ownership daemonInstanceId ticket file).run earlier = reached
        at after stopped marked running
      simp [Successor.run, Successor.step, marked, running, stopped,
        DaemonLifecycle.markStartupExecutionReady, DaemonLifecycle.executionAdmissionClosed] at after
    | _ => exact announces
  · rintro quiet earlier later rfl
    refine (run_held (held_new ownership daemonInstanceId ticket file) earlier ?_).closed
    rintro first call second rfl
    exact quiet first call (second ++ later) (by simp)

/-- A stop comes between the completion in the file and the mark of the successor. -/
def lateMark : List SuccessorCall :=
  [.complete {}, .cancelForShutdown {} "stop", .markCompleted, .markReady]

def successorTicket : RestartRecord :=
  ⟨"restart", "daemon", ipcProtocolVersion, "generation", .armed, false⟩

/-- After that stop has returned, execution is admitted again. -/
theorem admission_reopens_after_stop :
    ¬ ∀ (ownership : RestartOwnership) (daemonInstanceId : String) (ticket : RestartRecord)
      (file : Option RestartRecord) (calls earlier later : List SuccessorCall),
      calls = earlier ++ later →
      ((Successor.new ownership daemonInstanceId ticket file).run earlier).stopped →
      ((Successor.new ownership daemonInstanceId ticket file).run
        earlier).life.executionAdmissionClosed := by
  intro closed
  have late := closed .standalone "successor" successorTicket (some successorTicket) lateMark lateMark []
    rfl (by decide)
  exact absurd late (by decide)

end CueShell.Successor
