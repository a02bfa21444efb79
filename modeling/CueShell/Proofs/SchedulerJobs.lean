import CueShell.Proofs.SchedulerOrder

/-! # The life of a job

A step changes the entry of a job in a few ways only: a pending job starts to run, a job that has not
ended ends, and a job that has ended keeps its status and its exit code. New jobs get new numbers.
-/

namespace CueShell

open Relation (ReflTransGen)

variable {target : Targets} {request : Option SpawnChainRequest} {config : Config}
variable {occasion : Occasion} {before after : Board} {jobId : JobId}

/-- What may happen to the entry of a job. -/
structure JobEntry.Evolves (before after : JobEntry) : Prop where
  sessionId : after.sessionId = before.sessionId
  ended : before.status.isTerminal → after.status = before.status ∧ after.exitCode = before.exitCode
  running : before.status = .running → after.status ≠ .pending

theorem JobEntry.Evolves.refl (entry : JobEntry) : entry.Evolves entry where
  sessionId := rfl
  ended _ := ⟨rfl, rfl⟩
  running status := by simp [status]

theorem JobEntry.Evolves.trans {first middle last : JobEntry} (start : first.Evolves middle)
    (rest : middle.Evolves last) : first.Evolves last where
  sessionId := rest.sessionId.trans start.sessionId
  ended past := by
    obtain ⟨status, exitCode⟩ := start.ended past
    obtain ⟨later, laterCode⟩ := rest.ended (by rw [status]; exact past)
    exact ⟨later.trans status, laterCode.trans exitCode⟩
  running status := by
    have still := start.running status
    cases found : middle.status with
    | pending => exact absurd found still
    | running => exact rest.running found
    | _ =>
      obtain ⟨later, -⟩ := rest.ended (by rw [found]; rfl)
      rw [later]
      exact still

/-- A job that ends is a target of the step, belongs to a chain or could not be started. -/
structure JobEntry.Advances (target : Targets) (board : Board) (jobId : JobId)
    (before after : JobEntry) : Prop where
  evolves : before.Evolves after
  reason : ¬ before.status.isTerminal → after.status.isTerminal → board.MayEnd target jobId

theorem JobEntry.Advances.of_status {board : Board} {entry later : JobEntry}
    (sessionId : later.sessionId = entry.sessionId) (status : later.status = entry.status)
    (exitCode : later.exitCode = entry.exitCode) : entry.Advances target board jobId later where
  evolves := ⟨sessionId, fun _ => ⟨status, exitCode⟩, fun running => by simp [status, running]⟩
  reason unfinished ended := absurd (status ▸ ended) unfinished

/-- The first end of a job. -/
theorem JobEntry.Advances.of_end {board : Board} {entry : JobEntry} (update : TerminalStateUpdate)
    (unfinished : ¬ entry.status.isTerminal) (ended : update.status.isTerminal)
    (reason : board.MayEnd target jobId) :
    entry.Advances target board jobId (entry.ended update) where
  evolves := by
    refine ⟨rfl, fun past => absurd past unfinished, fun _ later => ?_⟩
    have status : update.status = .pending := later
    simp [status, JobStatus.isTerminal] at ended
  reason _ _ := reason

/-- One entry of the table of jobs is replaced. -/
theorem advances_insert {board : Board} {changed : JobId} {known entry later : JobEntry}
    (found : board.jobs.get jobId = some entry) (stored : board.jobs.get changed = some known)
    (advances : known.Advances target board changed later) :
    ∃ next, (board.jobs.insert changed later).get jobId = some next ∧
      entry.Advances target board jobId next := by
  rw [Table.get_insert]
  split
  · rename_i same
    subst same
    cases found.symm.trans stored
    exact ⟨later, rfl, advances⟩
  · exact ⟨entry, found, .of_status rfl rfl rfl⟩

theorem Board.Orderly.fresh (orderly : before.Orderly) {entry : JobEntry}
    (found : before.jobs.get jobId = some entry) : jobId ≠ before.nextJob := by
  rintro rfl
  have small := orderly.jobs _ ((before.jobs.mem_keys _).mpr (by rw [found]; rfl))
  exact absurd small (Nat.lt_irrefl _)

theorem Board.Move.job (move : Board.Move target before after) (orderly : before.Orderly)
    {entry : JobEntry} (found : before.jobs.get jobId = some entry) :
    ∃ later, after.jobs.get jobId = some later ∧ entry.Advances target before jobId later := by
  have fresh := orderly.fresh found
  cases move with
  | explain changed known reason stored =>
    exact advances_insert found stored (.of_status rfl rfl rfl)
  | complete changed known scope stored =>
    exact advances_insert found stored (.of_status rfl rfl rfl)
  | grant changed known base grants scope stored =>
    exact advances_insert found stored (.of_status rfl rfl rfl)
  | enterLeaf =>
    refine ⟨entry, ?_, .of_status rfl rfl rfl⟩
    exact (Table.get_insert ..).trans ((if_neg fresh).trans found)
  | parkLeaf =>
    refine ⟨entry, ?_, .of_status rfl rfl rfl⟩
    exact (Table.get_insert ..).trans ((if_neg fresh).trans found)
  | transform =>
    refine ⟨entry, ?_, .of_status rfl rfl rfl⟩
    rw [Board.follow_jobs]
    refine (Table.get_insert ..).trans ((if_neg fresh).trans ?_)
    exact (Table.get_insert ..).trans ((if_neg fresh).trans found)
  | finish changed known update stored unfinished ended reason =>
    rw [Board.follow_jobs]
    exact advances_insert found stored (.of_end update unfinished ended reason)
  | cancelLeaf changed known due active started stored unfinished =>
    have place := orderly.leaves _ _ _ _ active started
    exact advances_insert found stored (.of_end abortion unfinished rfl (.inr (.inl (by simp [place]))))
  | _ => exact ⟨entry, found, .of_status rfl rfl rfl⟩

theorem Board.Step.job (step : Board.Step target request before after) (orderly : before.Orderly)
    {entry : JobEntry} (found : before.jobs.get jobId = some entry) :
    ∃ later, after.jobs.get jobId = some later ∧ entry.Advances target before jobId later := by
  cases step with
  | move change => exact change.job orderly found
  | enterJob =>
    refine ⟨entry, ?_, .of_status rfl rfl rfl⟩
    exact (Table.get_insert ..).trans ((if_neg (orderly.fresh found)).trans found)
  | parkJob =>
    refine ⟨entry, ?_, .of_status rfl rfl rfl⟩
    exact (Table.get_insert ..).trans ((if_neg (orderly.fresh found)).trans found)
  | resume changed waiting known pending first stored status =>
    refine advances_insert found stored ⟨⟨rfl, ?_, ?_⟩, ?_⟩
    · simp [status, JobStatus.isTerminal]
    · simp
    · simp [JobStatus.isTerminal]
  | _ => exact ⟨entry, found, .of_status rfl rfl rfl⟩

section Due

/-- A script waits for a job that has ended or is gone. -/
def Board.DueJob (board : Board) (jobId : JobId) : Prop :=
  jobId ∈ board.pendingScriptJobs.keys ∧
    ∀ entry, board.jobs.get jobId = some entry → entry.status.isTerminal

/-- A script waits for a chain that is not active. -/
def Board.DueChain (board : Board) (chainId : ChainId) : Prop :=
  chainId ∈ board.pendingScriptChains.keys ∧ chainId ∉ board.chains.keys

theorem Board.Step.due_job (step : Board.Step target request before after) (orderly : before.Orderly)
    (due : after.DueJob jobId) :
    before.DueJob jobId ∨ target.jobs jobId ∨ .retryFailed jobId ∈ after.log := by
  obtain ⟨linked, ended⟩ := due
  rw [step.apart.pendingScriptJobs] at linked
  by_cases open_ : ∃ entry, before.jobs.get jobId = some entry ∧ ¬ entry.status.isTerminal
  · obtain ⟨entry, found, unfinished⟩ := open_
    obtain ⟨later, stored, advances⟩ := step.job orderly found
    rcases advances.reason unfinished (ended later stored) with allowed | placed | failed
    · exact .inr (.inl allowed)
    · exact absurd ((before.jobToChain.mem_keys jobId).mpr placed) (orderly.scriptJobs jobId linked).2
    · exact .inr (.inr ((step.log target request).subset failed))
  · refine .inl ⟨linked, fun entry found => ?_⟩
    by_contra unfinished
    exact open_ ⟨entry, found, unfinished⟩

theorem Board.Step.due_chain {chainId : ChainId} (step : Board.Step target request before after)
    (due : after.DueChain chainId) : before.DueChain chainId ∨ target.chains chainId := by
  obtain ⟨linked, gone⟩ := due
  rw [step.apart.pendingScriptChains] at linked
  by_cases active : chainId ∈ before.chains.keys
  · refine .inr ?_
    cases step with
    | move change =>
      obtain ⟨-, -, chains, -⟩ := change.counts
      exact absurd (chains ▸ active) gone
    | activate => exact absurd (Finset.mem_insert_of_mem active) gone
    | @close closed chain completed due found allowed ended kept =>
      by_cases same : chainId = closed
      · exact same ▸ allowed
      · exact absurd (Finset.mem_erase_of_ne_of_mem same active) gone
    | resume changed =>
      have kept := before.keys_setLeaf (before.jobToChain.get changed) .running
      exact absurd (kept ▸ active) gone
    | _ => exact absurd active gone
  · exact .inl ⟨linked, active⟩

theorem Board.Steps.due_job (steps : Board.Steps target request before after)
    (orderly : before.Orderly) (due : after.DueJob jobId) :
    before.DueJob jobId ∨ target.jobs jobId ∨ .retryFailed jobId ∈ after.log := by
  induction steps with
  | refl => exact .inl due
  | tail path step ih =>
    rcases step.due_job (orderly.steps path) due with earlier | later
    · rcases ih earlier with first | allowed | failed
      · exact .inl first
      · exact .inr (.inl allowed)
      · exact .inr (.inr ((step.log target request).subset failed))
    · exact .inr later

theorem Board.Steps.due_chain {chainId : ChainId} (steps : Board.Steps target request before after)
    (due : after.DueChain chainId) : before.DueChain chainId ∨ target.chains chainId := by
  induction steps with
  | refl => exact .inl due
  | tail path step ih => exact (step.due_chain due).elim ih .inr

end Due

section Flows

theorem Board.log_unlink (board : Board) (result : ScriptItemResult) :
    (board.unlink result).log = board.log := by
  cases result <;> rfl

theorem Board.log_link (board : Board) (scriptId : ScriptId) (result : ScriptItemResult) :
    (board.link scriptId result).log = board.log := by
  cases result <;> rfl

theorem Board.Flow.log (flow : Board.Flow config occasion before after) : before.log <+: after.log := by
  cases flow with
  | step permitted change => exact change.log _ _
  | suspend =>
    dsimp only
    rw [Board.log_link]
  | unlink result link gone => rw [Board.log_unlink]
  | resume =>
    dsimp only [Board.note]
    rw [Board.log_unlink]
    exact List.prefix_append ..
  | abort =>
    dsimp only [Board.note]
    rw [Board.log_unlink]
    exact List.prefix_append ..
  | crons => exact List.prefix_rfl
  | scope => exact List.prefix_rfl
  | defaults => exact List.prefix_rfl
  | prune => exact List.prefix_rfl
  | forget => exact List.prefix_rfl
  | skip => exact List.prefix_rfl
  | _ => exact List.prefix_append ..

theorem Board.Flows.log (flows : Board.Flows config occasion before after) :
    before.log <+: after.log := by
  induction flows with
  | refl => exact List.prefix_rfl
  | tail _ flow ih => exact ih.trans flow.log

/-- The tables of jobs and chains are left alone by everything but steps and pruning. -/
structure Board.Beside (before after : Board) : Prop where
  nextJob : after.nextJob = before.nextJob
  nextChain : after.nextChain = before.nextChain
  chains : after.chains = before.chains
  jobToChain : after.jobToChain = before.jobToChain
  jobs : after.jobs = before.jobs
  pendingResourceJobs : after.pendingResourceJobs = before.pendingResourceJobs
  pendingResource : after.pendingResource = before.pendingResource
  reservations : after.reservations = before.reservations
  history : after.history = before.history
  work : after.work = before.work

/-- The row and the entry of some jobs are dropped. -/
def Board.pruned (board : Board) (removed : JobId → Bool) : Board :=
  { board with
    history := board.history.retain fun jobId _ => !removed jobId
    jobs := board.jobs.retain fun jobId _ => !removed jobId }

theorem Board.Flow.kinds (flow : Board.Flow config occasion before after) :
    (∃ target request, Board.Step target request before after ∧
      ∀ asked, request = some asked → before.Permits config occasion asked) ∨
    (∃ removed, (∀ jobId, removed jobId = true → jobId ∈ before.history.keys) ∧
      after = before.pruned removed) ∨ before.Beside after := by
  cases flow with
  | step permitted change => exact .inl ⟨_, _, change, permitted⟩
  | prune removed old =>
    refine .inr (.inl ⟨removed, fun jobId gone => ?_, rfl⟩)
    obtain ⟨status, found, -⟩ := old jobId gone
    exact (before.history.mem_keys jobId).mpr (by simp [found])
  | @suspend script later outer index result =>
    refine .inr (.inr ?_)
    cases result <;> exact ⟨rfl, rfl, rfl, rfl, rfl, rfl, rfl, rfl, rfl, rfl⟩
  | unlink result =>
    refine .inr (.inr ?_)
    cases result <;> exact ⟨rfl, rfl, rfl, rfl, rfl, rfl, rfl, rfl, rfl, rfl⟩
  | @resume scriptId script later result =>
    refine .inr (.inr ?_)
    cases result <;> exact ⟨rfl, rfl, rfl, rfl, rfl, rfl, rfl, rfl, rfl, rfl⟩
  | @abort scriptId script result =>
    refine .inr (.inr ?_)
    cases result <;> exact ⟨rfl, rfl, rfl, rfl, rfl, rfl, rfl, rfl, rfl, rfl⟩
  | _ => exact .inr (.inr ⟨rfl, rfl, rfl, rfl, rfl, rfl, rfl, rfl, rfl, rfl⟩)

end Flows

end CueShell
