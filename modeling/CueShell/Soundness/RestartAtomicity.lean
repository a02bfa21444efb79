import CueShell.Model.RestartRequest
import CueShell.Soundness.RestartFence
import Mathlib.Logic.Basic
import Mathlib.Tactic.SplitIfs

/-! # A request for a restart takes effect or leaves no trace

Until the file is armed nothing but a helper exists that could have changed; after it, the handover
succeeds, or the helper is reaped and the file is put back, or admission is closed for good.
-/

namespace CueShell.RestartDesk

variable {attempt : RestartAttempt} {desk : RestartDesk} {file : Option RestartRecord}

/-- Where no other process uses the file, this is the request of the lifecycle. -/
theorem requestRestartWith_alone (clientId : UInt64) (requestId : UInt32) (answers : RestartAnswers)
    (desk : RestartDesk) (file : Option RestartRecord) :
    let outcome := requestRestartWith
      { clientId := clientId, requestId := requestId, answers := answers } desk file
    (outcome.1, outcome.2.1.toDaemonLifecycle, outcome.2.2) =
      DaemonLifecycle.requestRestart answers desk.toDaemonLifecycle file := by
  unfold requestRestartWith DaemonLifecycle.requestRestart
  dsimp only [elsewhere, List.foldl_nil]
  split
  · rfl
  · cases desk.restart with
    | some record => rfl
    | none =>
      dsimp only
      split
      · rfl
      · split
        · rfl
        · split
          · rfl
          · cases answers.spawnWatchdog with
            | error error => rfl
            | ok done =>
              dsimp only
              generalize armRestartRecord answers.arm desk.startupRestart _ file = armed
              obtain ⟨answer, stored⟩ := armed
              rcases answer with error | answer
              · rfl
              · cases answer with
                | stopWon => rfl
                | armed =>
                  dsimp only [handOver, onLifecycle, elsewhere, List.foldl_nil]
                  generalize DaemonLifecycle.handOver answers _ _ _ stored = handed
                  obtain ⟨answer, life, last⟩ := handed
                  cases answer <;> rfl

/-- The request gets as far as reading the file. -/
structure Ready (desk : RestartDesk) : Prop where
  owned : desk.restartOwnership ≠ .unknown
  first : desk.restart = none
  admits : ¬ desk.executionAdmissionClosed

/-- The file, when the request reads it. -/
def found (attempt : RestartAttempt) (file : Option RestartRecord) : Option RestartRecord :=
  elsewhere attempt.beforeRead file

/-- The request gets as far as arming the file: a helper has been spawned. -/
structure Spawned (attempt : RestartAttempt) (desk : RestartDesk) (file : Option RestartRecord) :
    Prop where
  ready : desk.Ready
  readable : attempt.answers.preflight = none
  free : (found attempt file).any RestartRecord.isCancelled = false
  spawned : attempt.answers.spawnWatchdog = .ok ()

/-- What arming the file answers, with the file after it. -/
def arming (attempt : RestartAttempt) (desk : RestartDesk) (file : Option RestartRecord) :
    Except String RestartArm × Option RestartRecord :=
  armRestartRecord attempt.answers.arm desk.startupRestart (desk.intent attempt.answers)
    (elsewhere attempt.beforeArm (found attempt file))

/-- The file is armed, and the successor does not become active. -/
structure HandoffFails (attempt : RestartAttempt) (desk : RestartDesk) (file : Option RestartRecord) :
    Prop where
  spawned : Spawned attempt desk file
  armed : (arming attempt desk file).1 = .ok .armed
  inactive : ∃ error, attempt.answers.activate = .error error

/-- The steps of a request that can fail, but for a helper that cannot be reaped after the arming and a
file that cannot be put back. -/
inductive Fails (attempt : RestartAttempt) (desk : RestartDesk) (file : Option RestartRecord) : Prop
  | ownership (unknown : desk.restartOwnership = .unknown)
  | starting (owned : desk.restartOwnership ≠ .unknown) (first : desk.restart = none)
      (closed : desk.executionAdmissionClosed)
  | unreadable (ready : desk.Ready) (error : attempt.answers.preflight.isSome)
  | stopped (ready : desk.Ready) (readable : attempt.answers.preflight = none)
      (cancelled : (found attempt file).any RestartRecord.isCancelled)
  | spawn (ready : desk.Ready) (readable : attempt.answers.preflight = none)
      (free : (found attempt file).any RestartRecord.isCancelled = false) (error : String)
      (failed : attempt.answers.spawnWatchdog = .error error)
  | arm (spawned : Spawned attempt desk file) (error : String)
      (failed : (arming attempt desk file).1 = .error error)
  | stopWon (spawned : Spawned attempt desk file)
      (won : (arming attempt desk file).1 = .ok .stopWon)
  | activation (fails : HandoffFails attempt desk file)
      (reaped : attempt.answers.terminateAndReap = .ok ()) (writable : attempt.answers.rollback = {})

/-- Another process has changed the file during the request. -/
def Disturbed (attempt : RestartAttempt) (desk : RestartDesk) (file : Option RestartRecord) : Prop :=
  found attempt file ≠ file ∨ elsewhere attempt.beforeArm file ≠ file ∨
    elsewhere attempt.afterArm (some (desk.intent attempt.answers)) ≠
      some (desk.intent attempt.answers)

/-- The request is refused; but for the number of helpers it leaves everything as it was, and so it does
with the file, unless another process has changed it. -/
structure Refused (attempt : RestartAttempt) (desk : RestartDesk) (file : Option RestartRecord)
    (outcome : Except String RestartTicket × RestartDesk × Option RestartRecord) : Prop where
  error : ∃ error, outcome.1 = .error error
  lifecycle : outcome.2.1.toDaemonLifecycle = desk.toDaemonLifecycle
  pendingResponse : outcome.2.1.pendingResponse = desk.pendingResponse
  file : outcome.2.2 = file ∨ Disturbed attempt desk file

section Steps

theorem request_of_ready (ready : desk.Ready) (readable : attempt.answers.preflight = none)
    (free : (found attempt file).any RestartRecord.isCancelled = false) :
    requestRestartWith attempt desk file = match attempt.answers.spawnWatchdog with
      | .error error => (.error error, desk, found attempt file)
      | .ok () =>
          let unreaped (context : String) := match attempt.answers.terminateAndReap with
            | .ok () => ""
            | .error error => context ++ error
          match arming attempt desk file with
          | (.error error, file) =>
              (.error (error ++ unreaped "; successor helper could not be reaped after arm failure: "),
                { desk with helpers := desk.helpers + 1 }, file)
          | (.ok .stopWon, file) =>
              (.error ("restart cancelled: an explicit stop already won" ++
                unreaped "; successor helper could not be reaped: "),
                { desk with helpers := desk.helpers + 1 }, file)
          | (.ok .armed, file) =>
              handOver attempt (desk.intent attempt.answers) desk.startupRestart
                { desk with helpers := desk.helpers + 1 } file := by
  unfold found at free
  simp only [requestRestartWith, if_neg ready.owned, ready.first, if_neg ready.admits, readable,
    Option.isSome_none, Bool.false_eq_true, if_false, free]
  rfl

/-- Without disturbance the file is what it was when the request arms it. -/
theorem found_of_calm (calm : ¬ Disturbed attempt desk file) :
    found attempt file = file ∧ elsewhere attempt.beforeArm (found attempt file) = file ∧
      elsewhere attempt.afterArm (some (desk.intent attempt.answers)) =
        some (desk.intent attempt.answers) := by
  simp only [Disturbed, not_or, not_not] at calm
  obtain ⟨read, arm, after⟩ := calm
  exact ⟨read, by rw [read, arm], after⟩

/-- The file is not written unless it is armed. -/
theorem arming_keeps (unarmed : (arming attempt desk file).1 ≠ .ok .armed) :
    (arming attempt desk file).2 = file ∨ Disturbed attempt desk file := by
  by_cases calm : Disturbed attempt desk file
  · exact .inr calm
  · obtain ⟨-, arm, -⟩ := found_of_calm calm
    rcases armRestartRecord_spec attempt.answers.arm (elsewhere attempt.beforeArm (found attempt file))
      desk.startupRestart (desk.intent attempt.answers) with ⟨armed, -, -⟩ | ⟨kept, -⟩
    · exact absurd (congrArg Prod.fst armed) unarmed
    · exact .inl (kept.trans arm)

/-- An armed file was what the daemon expected, and holds the new record. -/
theorem arming_armed (armed : (arming attempt desk file).1 = .ok .armed) :
    arming attempt desk file = (.ok .armed, some (desk.intent attempt.answers)) ∧
      elsewhere attempt.beforeArm (found attempt file) = desk.startupRestart := by
  rcases armRestartRecord_spec attempt.answers.arm (elsewhere attempt.beforeArm (found attempt file))
    desk.startupRestart (desk.intent attempt.answers) with ⟨result, expected, -⟩ | ⟨-, unarmed⟩
  · exact ⟨result, expected⟩
  · exact absurd armed unarmed

/-- What an undisturbed rollback does to the armed file. -/
theorem rollback_armed (intent : RestartRecord) (armed : intent.phase = .armed)
    (previous : Option RestartRecord) :
    rollbackArmedRestart {} intent previous (some intent) = (.ok .restored, previous) := by
  simp [rollbackArmedRestart, withRecord, RestartRecord.isCancelled, armed]

theorem rollback_answers (intent : RestartRecord) (previous stored : Option RestartRecord) :
    ∃ answer, (rollbackArmedRestart {} intent previous stored).1 = .ok answer := by
  unfold rollbackArmedRestart withRecord
  dsimp only
  split_ifs <;> exact ⟨_, rfl⟩

end Steps

theorem refused_before_file {error : String} (same : requestRestartWith attempt desk file =
    (.error error, desk, file)) : Refused attempt desk file (requestRestartWith attempt desk file) := by
  rw [same]
  exact ⟨⟨error, rfl⟩, rfl, rfl, .inl rfl⟩

theorem refused_before_arm {error : String} (same : requestRestartWith attempt desk file =
    (.error error, desk, found attempt file)) :
    Refused attempt desk file (requestRestartWith attempt desk file) := by
  rw [same]
  refine ⟨⟨error, rfl⟩, rfl, rfl, ?_⟩
  by_cases read : found attempt file = file
  · exact .inl read
  · exact .inr (.inl read)

theorem refused_unarmed (unarmed : (arming attempt desk file).1 ≠ .ok .armed)
    {error : String} (same : requestRestartWith attempt desk file =
      (.error error, { desk with helpers := desk.helpers + 1 }, (arming attempt desk file).2)) :
    Refused attempt desk file (requestRestartWith attempt desk file) := by
  rw [same]
  exact ⟨⟨error, rfl⟩, rfl, rfl, arming_keeps unarmed⟩

/-- A handover that has failed answers for the whole request. -/
theorem HandoffFails.request (fails : HandoffFails attempt desk file) :
    requestRestartWith attempt desk file =
      handOver attempt (desk.intent attempt.answers) desk.startupRestart
        { desk with helpers := desk.helpers + 1 } (some (desk.intent attempt.answers)) := by
  have spawned := fails.spawned
  rw [request_of_ready spawned.ready spawned.readable spawned.free, spawned.spawned]
  dsimp only
  rw [(arming_armed fails.armed).1]

/-- The helper is reaped and the file is put back. -/
theorem HandoffFails.refused (fails : HandoffFails attempt desk file)
    (reaped : attempt.answers.terminateAndReap = .ok ()) (writable : attempt.answers.rollback = {}) :
    Refused attempt desk file (requestRestartWith attempt desk file) := by
  obtain ⟨activationError, inactive⟩ := fails.inactive
  obtain ⟨answer, answered⟩ := rollback_answers (desk.intent attempt.answers) desk.startupRestart
    (elsewhere attempt.afterArm (some (desk.intent attempt.answers)))
  have rolled : rollbackArmedRestart {} (desk.intent attempt.answers) desk.startupRestart
      (elsewhere attempt.afterArm (some (desk.intent attempt.answers))) =
      (.ok answer, (rollbackArmedRestart {} (desk.intent attempt.answers) desk.startupRestart
        (elsewhere attempt.afterArm (some (desk.intent attempt.answers)))).2) := Prod.ext answered rfl
  rw [fails.request, handOver, onLifecycle, DaemonLifecycle.handOver, inactive]
  dsimp only
  rw [reaped, writable]
  dsimp only
  rw [rolled]
  refine ⟨⟨_, rfl⟩, rfl, rfl, ?_⟩
  by_cases calm : Disturbed attempt desk file
  · exact .inr calm
  · obtain ⟨-, arm, after⟩ := found_of_calm calm
    refine .inl ?_
    dsimp only
    rw [after, rollback_armed _ rfl, ← (arming_armed fails.armed).2, arm]

/-- A request that fails at some step leaves no trace. -/
theorem Fails.refused (fails : Fails attempt desk file) :
    Refused attempt desk file (requestRestartWith attempt desk file) := by
  cases fails with
  | ownership unknown =>
    exact refused_before_file (if_pos unknown)
  | starting owned first closed =>
    apply refused_before_file
    rw [requestRestartWith, if_neg owned, first]
    exact if_pos closed
  | unreadable ready error =>
    apply refused_before_arm
    rw [requestRestartWith, if_neg ready.owned, ready.first]
    exact (if_neg ready.admits).trans (if_pos error)
  | stopped ready readable cancelled =>
    apply refused_before_arm
    rw [requestRestartWith, if_neg ready.owned, ready.first]
    refine (if_neg ready.admits).trans ((if_neg ?_).trans (if_pos cancelled))
    simp [readable]
  | spawn ready readable free error failed =>
    apply refused_before_arm
    rw [request_of_ready ready readable free, failed]
  | arm spawned error failed =>
    have same : arming attempt desk file = (.error error, (arming attempt desk file).2) :=
      Prod.ext failed rfl
    apply refused_unarmed (by simp [failed])
    rw [request_of_ready spawned.ready spawned.readable spawned.free, spawned.spawned, same]
  | stopWon spawned won =>
    have same : arming attempt desk file = (.ok .stopWon, (arming attempt desk file).2) :=
      Prod.ext won rfl
    apply refused_unarmed (by simp [won])
    rw [request_of_ready spawned.ready spawned.readable spawned.free, spawned.spawned, same]
  | activation fails reaped writable => exact fails.refused reaped writable

/-- The helper of an armed restart cannot be reaped: the daemon takes no more work. -/
theorem HandoffFails.closed (fails : HandoffFails attempt desk file)
    (unreaped : ∃ error, attempt.answers.terminateAndReap = .error error) :
    (∃ error, (requestRestartWith attempt desk file).1 = .error error) ∧
      (requestRestartWith attempt desk file).2.1.executionAdmissionClosed := by
  obtain ⟨activationError, inactive⟩ := fails.inactive
  obtain ⟨reapError, unreaped⟩ := unreaped
  rw [fails.request, handOver, onLifecycle, DaemonLifecycle.handOver, inactive]
  dsimp only
  rw [unreaped]
  exact ⟨⟨_, rfl⟩, rfl⟩

section Later

/-- The restart that has been requested keeps its ids, whatever becomes of its phase. -/
structure Holds (desk : RestartDesk) (restartId daemonInstanceId targetGeneration : String) : Prop where
  owned : desk.restartOwnership ≠ .unknown
  intent : ∃ record, desk.restart = some record ∧ record.restartId = restartId ∧
    record.daemonInstanceId = daemonInstanceId ∧ record.targetGeneration = targetGeneration

variable {restartId daemonInstanceId targetGeneration : String}

/-- A later request is answered with the ticket of the first and does nothing else. -/
theorem Holds.request (holds : desk.Holds restartId daemonInstanceId targetGeneration)
    (attempt : RestartAttempt) (file : Option RestartRecord) :
    requestRestartWith attempt desk file =
      (.ok ⟨restartId, daemonInstanceId, targetGeneration, false⟩, desk, file) := by
  obtain ⟨record, first, rfl, rfl, rfl⟩ := holds.intent
  rw [requestRestartWith, if_neg holds.owned, first]

/-- The restart and the ownership after a method that cancels. -/
theorem cancelRestartFence_holds (holds : desk.Holds restartId daemonInstanceId targetGeneration)
    (io : RecordIo) (uuid : String) (file : Option RestartRecord) :
    ∃ record, (DaemonLifecycle.cancelRestartFence io uuid desk.toDaemonLifecycle file).2.1 =
        { desk.toDaemonLifecycle with restart := some record } ∧
      record.restartId = restartId ∧ record.daemonInstanceId = daemonInstanceId ∧
      record.targetGeneration = targetGeneration := by
  obtain ⟨record, first, rfl, rfl, rfl⟩ := holds.intent
  refine ⟨record.cancel, ?_, rfl, rfl, rfl⟩
  rw [DaemonLifecycle.cancelRestartFence, first]

theorem cancelRestartForShutdown_holds (holds : desk.Holds restartId daemonInstanceId targetGeneration)
    (io : RecordIo) (uuid : String) (file : Option RestartRecord) :
    ∃ record state, (DaemonLifecycle.cancelRestartForShutdown io uuid desk.toDaemonLifecycle file).2.1 =
        { desk.toDaemonLifecycle with restart := some record, state := state } ∧
      record.restartId = restartId ∧ record.daemonInstanceId = daemonInstanceId ∧
      record.targetGeneration = targetGeneration := by
  obtain ⟨record, fence, ids⟩ := cancelRestartFence_holds holds io uuid file
  unfold DaemonLifecycle.cancelRestartForShutdown
  generalize DaemonLifecycle.cancelRestartFence io uuid desk.toDaemonLifecycle file = outcome at fence
  obtain ⟨answer, life, stored⟩ := outcome
  dsimp only at fence
  subst fence
  cases answer with
  | error error => exact ⟨record, desk.state, rfl, ids⟩
  | ok done => exact ⟨record, .draining, rfl, ids⟩

theorem failStopRestart_holds (holds : desk.Holds restartId daemonInstanceId targetGeneration)
    (io : RecordIo) (uuid : String) (file : Option RestartRecord) :
    ∃ record state stop, (DaemonLifecycle.failStopRestart io uuid desk.toDaemonLifecycle file).2.1 =
        { desk.toDaemonLifecycle with restart := some record, state := state, stop := stop } ∧
      record.restartId = restartId ∧ record.daemonInstanceId = daemonInstanceId ∧
      record.targetGeneration = targetGeneration := by
  obtain ⟨record, state, stopped, ids⟩ := cancelRestartForShutdown_holds holds io uuid file
  unfold DaemonLifecycle.failStopRestart
  generalize DaemonLifecycle.cancelRestartForShutdown io uuid desk.toDaemonLifecycle file =
    outcome at stopped
  obtain ⟨answer, life, stored⟩ := outcome
  dsimp only at stopped
  subst stopped
  cases answer with
  | error error => exact ⟨record, state, desk.stop, rfl, ids⟩
  | ok done => exact ⟨record, state, true, rfl, ids⟩

theorem Holds.use (holds : desk.Holds restartId daemonInstanceId targetGeneration)
    (file : Option RestartRecord) (use : Use) :
    (desk.use file use).1.Holds restartId daemonInstanceId targetGeneration ∧
      (desk.use file use).1.helpers = desk.helpers := by
  cases use with
  | request attempt =>
    rw [RestartDesk.use, holds.request]
    exact ⟨holds, rfl⟩
  | cancelForShutdown io uuid =>
    obtain ⟨record, state, same, ids⟩ := cancelRestartForShutdown_holds holds io uuid file
    refine ⟨⟨?_, record, ?_, ids⟩, rfl⟩
    · dsimp only [RestartDesk.use, onLifecycle]
      rw [same]
      exact holds.owned
    · dsimp only [RestartDesk.use, onLifecycle]
      rw [same]
  | failStop io uuid =>
    obtain ⟨record, state, stop, same, ids⟩ := failStopRestart_holds holds io uuid file
    refine ⟨⟨?_, record, ?_, ids⟩, rfl⟩
    · dsimp only [RestartDesk.use, onLifecycle]
      rw [same]
      exact holds.owned
    · dsimp only [RestartDesk.use, onLifecycle]
      rw [same]
  | markCompleted => exact ⟨⟨holds.owned, holds.intent⟩, rfl⟩
  | markReady =>
    refine ⟨?_, rfl⟩
    dsimp only [RestartDesk.use, DaemonLifecycle.markStartupExecutionReady]
    split
    · exact ⟨holds.owned, holds.intent⟩
    · exact holds
  | responseComplete clientId requestId =>
    dsimp only [RestartDesk.use, markRestartResponseComplete]
    split
    · exact ⟨⟨holds.owned, holds.intent⟩, rfl⟩
    · exact ⟨holds, rfl⟩
  | disconnect clientId =>
    dsimp only [RestartDesk.use, resolveRestartResponseDisconnect]
    split
    · split
      · dsimp only [markRestartResponseComplete]
        split
        · exact ⟨⟨holds.owned, holds.intent⟩, rfl⟩
        · exact ⟨holds, rfl⟩
      · exact ⟨holds, rfl⟩
    · exact ⟨holds, rfl⟩
  | elsewhere calls => exact ⟨holds, rfl⟩

theorem Holds.uses (holds : desk.Holds restartId daemonInstanceId targetGeneration)
    (file : Option RestartRecord) (later : List Use) :
    (desk.uses file later).1.Holds restartId daemonInstanceId targetGeneration ∧
      (desk.uses file later).1.helpers = desk.helpers := by
  induction later generalizing desk file with
  | nil => exact ⟨holds, rfl⟩
  | cons use rest ih =>
    obtain ⟨still, helpers⟩ := holds.use file use
    obtain ⟨last, same⟩ := ih still (desk.use file use).2
    exact ⟨last, same.trans helpers⟩

end Later

/-- A handover that fails is an error whatever else fails. -/
theorem HandoffFails.error (fails : HandoffFails attempt desk file) :
    ∃ error, (requestRestartWith attempt desk file).1 = .error error := by
  cases reap : attempt.answers.terminateAndReap with
  | error reapError => exact (fails.closed ⟨reapError, reap⟩).1
  | ok done =>
    obtain ⟨activationError, inactive⟩ := fails.inactive
    rw [fails.request, handOver, onLifecycle, DaemonLifecycle.handOver, inactive]
    dsimp only
    rw [reap]
    generalize rollbackArmedRestart attempt.answers.rollback (desk.intent attempt.answers)
      desk.startupRestart (elsewhere attempt.afterArm (some (desk.intent attempt.answers))) = outcome
    obtain ⟨answer, stored⟩ := outcome
    cases answer with
    | error error => exact ⟨_, rfl⟩
    | ok rollback => exact ⟨_, rfl⟩

/-- The stages of a request: it fails, it repeats an earlier one, its handover fails, or it hands over. -/
theorem request_stages (attempt : RestartAttempt) (desk : RestartDesk) (file : Option RestartRecord) :
    Fails attempt desk file ∨ (desk.restartOwnership ≠ .unknown ∧ ∃ record, desk.restart = some record) ∨
      HandoffFails attempt desk file ∨
      Spawned attempt desk file ∧ (arming attempt desk file).1 = .ok .armed ∧
        attempt.answers.activate = .ok () := by
  by_cases unknown : desk.restartOwnership = .unknown
  · exact .inl (.ownership unknown)
  cases first : desk.restart with
  | some record => exact .inr (.inl ⟨unknown, record, rfl⟩)
  | none =>
    by_cases closed : desk.executionAdmissionClosed
    · exact .inl (.starting unknown first closed)
    have ready : desk.Ready := ⟨unknown, first, closed⟩
    cases readable : attempt.answers.preflight with
    | some error => exact .inl (.unreadable ready (by simp [readable]))
    | none =>
      by_cases cancelled : (found attempt file).any RestartRecord.isCancelled
      · exact .inl (.stopped ready readable cancelled)
      have free := Bool.eq_false_iff.mpr cancelled
      cases spawn : attempt.answers.spawnWatchdog with
      | error error => exact .inl (.spawn ready readable free error spawn)
      | ok done =>
        have spawned : Spawned attempt desk file := ⟨ready, readable, free, spawn⟩
        cases arm : (arming attempt desk file).1 with
        | error error => exact .inl (.arm spawned error arm)
        | ok answer =>
          cases answer with
          | stopWon => exact .inl (.stopWon spawned arm)
          | armed =>
            cases active : attempt.answers.activate with
            | error error => exact .inr (.inr (.inl ⟨spawned, arm, error, active⟩))
            | ok done => exact .inr (.inr (.inr ⟨spawned, rfl, rfl⟩))

/-- A request that succeeds leaves the intent behind that its ticket names. -/
theorem holds_of_success {ticket : RestartTicket}
    (success : (requestRestartWith attempt desk file).1 = .ok ticket) :
    (requestRestartWith attempt desk file).2.1.Holds ticket.restartId ticket.daemonInstanceId
      ticket.targetGeneration := by
  rcases request_stages attempt desk file with fails | ⟨owned, record, first⟩ | fails |
    ⟨spawned, armed, active⟩
  · obtain ⟨error, failed⟩ := fails.refused.error
    cases failed.symm.trans success
  · rw [requestRestartWith, if_neg owned, first] at success ⊢
    cases success
    exact ⟨owned, record, first, rfl, rfl, rfl⟩
  · obtain ⟨error, failed⟩ := fails.error
    cases failed.symm.trans success
  · have request : requestRestartWith attempt desk file =
        handOver attempt (desk.intent attempt.answers) desk.startupRestart
          { desk with helpers := desk.helpers + 1 } (some (desk.intent attempt.answers)) := by
      rw [request_of_ready spawned.ready spawned.readable spawned.free, spawned.spawned]
      dsimp only
      rw [(arming_armed armed).1]
    rw [request, handOver, onLifecycle, DaemonLifecycle.handOver, active] at success ⊢
    cases success
    exact ⟨spawned.ready.owned, _, rfl, rfl, rfl, rfl⟩

/-- A request fails without a trace, or closes admission where the helper of an armed restart cannot be
reaped; and after a success every later request gets the same ticket and spawns no helper. -/
theorem requestRestart_atomic (attempt : RestartAttempt) (desk : RestartDesk)
    (file : Option RestartRecord) :
    (Fails attempt desk file → Refused attempt desk file (requestRestartWith attempt desk file)) ∧
    (HandoffFails attempt desk file → (∃ error, attempt.answers.terminateAndReap = .error error) →
      (∃ error, (requestRestartWith attempt desk file).1 = .error error) ∧
        (requestRestartWith attempt desk file).2.1.executionAdmissionClosed) ∧
    ∀ ticket, (requestRestartWith attempt desk file).1 = .ok ticket → ∀ later again,
      let (after, stored) := (requestRestartWith attempt desk file).2.1.uses
        (requestRestartWith attempt desk file).2.2 later
      requestRestartWith again after stored = (.ok { ticket with firstRequest := false }, after, stored) ∧
        after.helpers = (requestRestartWith attempt desk file).2.1.helpers := by
  refine ⟨Fails.refused, HandoffFails.closed, fun ticket success later again => ?_⟩
  obtain ⟨holds, helpers⟩ := (holds_of_success success).uses (requestRestartWith attempt desk file).2.2 later
  exact ⟨holds.request again _, helpers⟩

/-- The file cannot be armed and the helper cannot be reaped: the daemon goes on and admits work. -/
theorem unreaped_helper_admits :
    ¬ ∀ (attempt : RestartAttempt) (desk : RestartDesk) (file : Option RestartRecord),
      Spawned attempt desk file → (∃ error, attempt.answers.terminateAndReap = .error error) →
      (∃ error, (requestRestartWith attempt desk file).1 = .error error) →
      (requestRestartWith attempt desk file).2.1.executionAdmissionClosed := by
  intro closes
  have closed := closes
    { clientId := 1
      requestId := 1
      answers :=
        { restartId := "id"
          targetGeneration := "next"
          arm := { write := some "disk full" }
          terminateAndReap := .error "no such process" } }
    ⟨.newWithStartup .standalone "daemon" none, none, 0⟩ none
    ⟨⟨by decide, rfl, by decide⟩, rfl, rfl, rfl⟩ ⟨_, rfl⟩ ⟨_, rfl⟩
  revert closed
  decide

end CueShell.RestartDesk
