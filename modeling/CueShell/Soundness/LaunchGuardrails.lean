import CueShell.Proofs.SchedulerOwners

/-! # Guardrails of every launch

Commands and crons check the guardrails before they spawn a chain. A retry does not: it reads the text of
a job, and what that text means may be forbidden. So a run launches only what the guardrails allow if the
texts that are retried are allowed.
-/

namespace CueShell

variable {env : Env} {config : Config} {occasion : Occasion} {before after : Board}
variable {isOpen : Bool}

/-- A chain that the guardrails let pass, perhaps with warnings. -/
def ChainNode.Allowed (chain : ChainNode) (config : Config) : Prop :=
  ∃ warnings, checkChainGuardrails chain config = .ok warnings

/-- Whenever a job is retried, its text means a chain that the guardrails allow. -/
def RetriesAllowed (config : Config) (log : List SchedulerEvent) : Prop :=
  ∀ id requester jobs sessions entry chain, .command (.retry id) requester jobs sessions ∈ log →
    Retries id requester jobs entry → parseChainText entry.pipelineText = some chain →
      chain.Allowed config

/-- All chains that have been handed over for execution. -/
def SpawnsAllowed (config : Config) (log : List SchedulerEvent) : Prop :=
  ∀ chain scope, .spawned chain scope ∈ log → chain.Allowed config

/-- What permits to spawn a chain has checked it, or is a retry. -/
theorem Board.Permits.allowed {asked : SpawnChainRequest} (permits : before.Permits config occasion asked)
    (retries : RetriesAllowed config before.log) : asked.chain.Allowed config := by
  cases permits with
  | run warnings owner checked => exact ⟨warnings, checked⟩
  | cron isOpen cronId entry warnings found chain sessionId checked => exact ⟨warnings, checked⟩
  | retry id requester jobId entry noted named found ended start text sessionId source owner seen =>
    exact retries id requester before.jobs before.sessions entry asked.chain noted
      ⟨⟨jobId, named, found⟩, seen, ended, by simp [start]⟩ text

theorem RetriesAllowed.earlier {first last : List SchedulerEvent} (retries : RetriesAllowed config last)
    (part : first <+: last) : RetriesAllowed config first :=
  fun id requester jobs sessions entry chain noted =>
    retries id requester jobs sessions entry chain (part.subset noted)

theorem Board.Flows.allowed (flows : Board.Flows config occasion before after)
    (retries : RetriesAllowed config after.log) (allowed : SpawnsAllowed config before.log) :
    SpawnsAllowed config after.log := by
  induction flows with
  | refl => exact allowed
  | tail path flow ih =>
    have earlier := retries.earlier flow.log
    intro chain scope member
    rcases flow.spawned member with old | ⟨asked, permits, rfl⟩
    · exact ih earlier chain scope old
    · exact permits.allowed earlier

variable {state later : SchedulerState}

theorem Turns.allowed (turns : Turns env config isOpen state later)
    (retries : RetriesAllowed config later.log) (allowed : SpawnsAllowed config state.log) :
    SpawnsAllowed config later.log := by
  induction turns with
  | refl => exact allowed
  | tail path turn ih =>
    rcases turn.kinds with ⟨occasion, round⟩ | ⟨sessions, question, rfl⟩
    · exact round.flows.allowed retries (ih (retries.earlier round.flows.log))
    · exact ih retries

/-- A run in which only texts that the guardrails allow are retried launches only chains that the
guardrails allow. -/
theorem launches_allowed (restored : Restored state) (isStarting : Bool) (wakes : List Wake)
    (retries : RetriesAllowed config (SchedulerLoop.history env config state isStarting wakes).state.log) :
    SpawnsAllowed config (SchedulerLoop.history env config state isStarting wakes).state.log := by
  obtain ⟨middle, turns, reached⟩ : ∃ middle, Turns env config true state middle ∧ _ :=
    SchedulerLoop.history_state restored isStarting wakes
  have start : SpawnsAllowed config state.log := by
    rw [restored.log]
    exact fun chain scope member => absurd member (List.not_mem_nil)
  rcases reached with same | halts
  · rw [same] at retries ⊢
    exact turns.allowed retries start
  · obtain ⟨events, log, quiet⟩ := halts.log
    rw [log] at retries ⊢
    have allowed := turns.allowed (retries.earlier (List.prefix_append ..)) start
    intro chain scope member
    rcases List.mem_append.mp member with old | new
    · exact allowed chain scope old
    · cases quiet _ new

/-- A check of the texts that are retried, whoever asks. -/
def SchedulerEvent.retryAllowed (config : Config) : SchedulerEvent → Bool
  | .command (.retry id) _ jobs _ =>
      ((parseJobId id).bind jobs.get).all fun entry =>
        (parseChainText entry.pipelineText).all fun chain => (checkChainGuardrails chain config).isOk
  | _ => true

theorem RetriesAllowed.of_all {log : List SchedulerEvent}
    (checked : log.all (SchedulerEvent.retryAllowed config)) : RetriesAllowed config log := by
  intro id requester jobs sessions entry chain noted retries text
  have passed := List.all_eq_true.mp checked _ noted
  obtain ⟨jobId, named, found⟩ := retries.named
  simp only [SchedulerEvent.retryAllowed, named, found, text, Option.bind_some, Option.all_some] at passed
  cases answer : checkChainGuardrails chain config with
  | error reason =>
    rw [answer] at passed
    cases passed
  | ok warnings => exact ⟨warnings, answer⟩

def SchedulerEvent.spawnAllowed (config : Config) : SchedulerEvent → Bool
  | .spawned chain _ => (checkChainGuardrails chain config).isOk
  | _ => true

theorem SpawnsAllowed.all {log : List SchedulerEvent} (allowed : SpawnsAllowed config log) :
    log.all (SchedulerEvent.spawnAllowed config) := by
  refine List.all_eq_true.mpr fun event member => ?_
  cases event with
  | spawned chain scope =>
    obtain ⟨warnings, passed⟩ := allowed chain scope member
    rw [SchedulerEvent.spawnAllowed, passed]
    rfl
  | _ => rfl

section Commits

/-- The default guardrails, which forbid `git --no-verify`. -/
def defaultGuardrails : Config := ⟨.ensureDefaults ⟨[], []⟩, ⟨[]⟩, false, 10⟩

/-- A client commits with a message, and retries the job when it has failed. -/
def commitWakes (message : String) : List Wake :=
  [.message (.connect 1 "s" false),
    .message (.eval 1 1 (.single (.run (.leaf (.pipeline ⟨[⟨["git", "commit", "-m", message], none⟩]⟩)) {}))),
    .message (.jobFinished 1 1),
    .message (.eval 1 2 (.single (.retry "J1")))]

/-- A message of one word is read back as it was. -/
theorem launches_allowed_commit :
    SpawnsAllowed defaultGuardrails (SchedulerLoop.history Env.calm defaultGuardrails SchedulerState.new
      false (commitWakes "fix")).state.log :=
  launches_allowed SchedulerState.new_restored false _ (.of_all (by decide +kernel))

/-- A message that mentions the option becomes the option when the job is retried: a chain is launched
that the guardrails forbid. -/
theorem commit_retry_blocked :
    Restored SchedulerState.new ∧ ¬ SpawnsAllowed defaultGuardrails (SchedulerLoop.history Env.calm
      defaultGuardrails SchedulerState.new false (commitWakes "skip --no-verify")).state.log := by
  refine ⟨SchedulerState.new_restored, fun allowed => ?_⟩
  have passed := allowed.all
  have failed : (SchedulerLoop.history Env.calm defaultGuardrails SchedulerState.new false
      (commitWakes "skip --no-verify")).state.log.all
        (SchedulerEvent.spawnAllowed defaultGuardrails) = false := by decide +kernel
  rw [failed] at passed
  cases passed

end Commits

end CueShell
