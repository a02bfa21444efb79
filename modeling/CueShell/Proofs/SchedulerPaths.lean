import CueShell.Proofs.SchedulerJobs

/-! # Paths

A path is a sequence of flows that leaves no script behind: a script waits for a job or chain that has
ended only if it did so before, or if the scheduler noted why. No path submits more items than there
are. Every command takes the board along a path.
-/

namespace CueShell

open Relation (ReflTransGen)

variable {env : Env} {config : Config} {occasion : Occasion} {before after : Board}
variable {target : Targets} {request : Option SpawnChainRequest}
variable {state : SchedulerState} {running : List RunningScript}

/-- The number of script items that have not been submitted. -/
def Board.items (board : Board) : ℕ :=
  board.toSchedulerState.openItems + (board.running.map fun current => current.script.items.length).sum

structure Board.Path (config : Config) (occasion : Occasion) (before after : Board) :
    Prop where
  flows : Board.Flows config occasion before after
  jobs : ∀ jobId, after.DueJob jobId → before.DueJob jobId ∨ .retryFailed jobId ∈ after.log
  chains : ∀ chainId, after.DueChain chainId →
    before.DueChain chainId ∨ ∃ other, .cancelUnsaved other ∈ after.log
  items : after.items ≤ before.items

namespace Board.Path

theorem refl (board : Board) : Board.Path config occasion board board where
  flows := .refl
  jobs _ := .inl
  chains _ := .inl
  items := le_rfl

theorem trans {first middle last : Board} (start : Board.Path config occasion first middle)
    (rest : Board.Path config occasion middle last) : Board.Path config occasion first last where
  flows := start.flows.trans rest.flows
  jobs jobId due := by
    rcases rest.jobs jobId due with earlier | failed
    · exact (start.jobs jobId earlier).imp_right (rest.flows.log.subset ·)
    · exact .inr failed
  chains chainId due := by
    rcases rest.chains chainId due with earlier | failed
    · refine (start.chains chainId earlier).imp_right ?_
      rintro ⟨other, unsaved⟩
      exact ⟨other, rest.flows.log.subset unsaved⟩
    · exact .inr failed
  items := rest.items.trans start.items

theorem orderly (path : Board.Path config occasion before after) (orderly : before.Orderly) :
    after.Orderly :=
  orderly.flows path.flows

/-- A flow that ends nothing a script waits for. -/
theorem single (flow : Board.Flow config occasion before after)
    (jobs : ∀ jobId, after.DueJob jobId → before.DueJob jobId)
    (chains : ∀ chainId, after.DueChain chainId → before.DueChain chainId)
    (items : after.items ≤ before.items) : Board.Path config occasion before after where
  flows := .single flow
  jobs jobId due := .inl (jobs jobId due)
  chains chainId due := .inl (chains chainId due)
  items := items

end Board.Path

section Steps

theorem Board.Steps.flows (steps : Board.Steps target none before after) :
    Board.Flows config occasion before after := by
  induction steps with
  | refl => exact .refl
  | tail path step ih => exact ih.tail (.step (by simp) step)

theorem Board.Spawn.flows {asked : SpawnChainRequest} (spawn : Board.Spawn target asked before after)
    (permits : before.Permits config occasion asked) : Board.Flows config occasion before after := by
  obtain ⟨middle, taken, steps⟩ := spawn
  refine .head (.step ?_ taken) steps.flows
  rintro _ ⟨⟩
  exact permits

theorem Board.Apart.items (apart : before.Apart after) : after.items = before.items := by
  rw [Board.items, Board.items, SchedulerState.openItems, SchedulerState.openItems,
    apart.pendingScripts, apart.running]

/-- Spawning a chain ends nothing a script waits for. -/
theorem Board.Spawn.path {asked : SpawnChainRequest} (spawn : Board.Spawn target asked before after)
    (orderly : before.Orderly) (permits : before.Permits config occasion asked)
    (jobs : ∀ jobId ∈ before.pendingScriptJobs.keys, ¬ target.jobs jobId)
    (chains : ∀ chainId ∈ before.pendingScriptChains.keys, ¬ target.chains chainId) :
    Board.Path config occasion before after where
  flows := spawn.flows permits
  jobs jobId due := by
    have linked := due.1
    rw [(spawn.steps target).apart.pendingScriptJobs] at linked
    rcases (spawn.steps target).due_job orderly due with earlier | allowed | failed
    · exact .inl earlier
    · exact absurd allowed (jobs jobId linked)
    · exact .inr failed
  chains chainId due := by
    have linked := due.1
    rw [(spawn.steps target).apart.pendingScriptChains] at linked
    rcases (spawn.steps target).due_chain due with earlier | allowed
    · exact .inl earlier
    · exact absurd allowed (chains chainId linked)
  items := (spawn.steps target).apart.items.le

/-- A move that nobody asked for and that ends nothing. -/
theorem Board.Move.flow (move : Board.Move ⟨fun _ => False, fun _ => False⟩ before after) :
    Board.Flow config occasion before after :=
  .step (by simp) (.move move : Board.Step _ none before after)

/-- Questions to the environment change nothing. -/
theorem Board.Path.asks (board : Board) (count : ℕ) :
    Board.Path config occasion board { board with question := board.question + count } := by
  induction count with
  | zero => exact .refl board
  | succ count ih =>
    exact ih.trans (.single (Board.Move.flow .ask) (fun _ due => due) (fun _ due => due) le_rfl)

end Steps

section Spawn

/-- What a client or a script may rely on in an answer. -/
structure ProperAnswer (retained : Bool) (response : Response) (after : SchedulerState) : Prop where
  silent : ∀ jobId entry, response ≠ .ok (.jobInfo jobId entry)
  job : ∀ jobId scope warnings, response = .ok (.jobCreated jobId scope warnings) →
    after.jobToChain.get jobId = none ∧ (after.jobs.get jobId).isSome
  chain : ∀ chainId jobIds info warnings, response = .ok (.chainCreated chainId jobIds info warnings) →
    after.pendingScriptChains.get chainId = none ∧
      (retained → (after.chains.get chainId).isSome ∨ (after.completedChains.get chainId).isSome)

theorem ProperAnswer.of_plain {retained : Bool} {response : Response} {after : SchedulerState}
    (plain : response.plain) : ProperAnswer retained response after where
  silent jobId entry same := by simp [same, Response.plain] at plain
  job jobId scope warnings same := by simp [same, Response.plain] at plain
  chain chainId jobIds info warnings same := by simp [same, Response.plain] at plain

theorem ProperAnswer.error (retained : Bool) (code message : String) (after : SchedulerState) :
    ProperAnswer retained (errorResponse code message) after := .of_plain rfl

theorem ProperAnswer.cronAdded (retained : Bool) (cronId : CronId) (after : SchedulerState) :
    ProperAnswer retained (.ok (.cronAdded cronId)) after where
  silent _ _ same := nomatch same
  job _ _ _ same := nomatch same
  chain _ _ _ _ same := nomatch same

/-- The program takes the board along a path and gives a proper answer. -/
abbrev Serves (config : Config) (occasion : Occasion) (running : List RunningScript)
    (retained : Bool) (program : Sched Response) (state : SchedulerState) : Prop :=
  Ensures program state fun response after =>
    Board.Path config occasion (state.board none running) (after.board none running) ∧
      ProperAnswer retained response after

variable (occasion) (orderly : (state.board none running).Orderly)

include orderly in
theorem spawnChain_serves {asked : SpawnChainRequest} {retained : Bool}
    (permits : (state.board none running).Permits config occasion asked)
    (kept : retained → asked.retainCompletedChain ∨
      asked.options.process.needs = [] ∧ asked.options.scopeEnabled = false) :
    Serves config occasion running retained (spawnChain env asked) state := by
  let target : Targets := ⟨(state.nextJob ≤ ·), (state.nextChain ≤ ·)⟩
  have alone : state.jobToChain.get state.nextJob = none := by
    apply Table.get_of_not_mem
    exact fun member => absurd (orderly.places _ member) (Nat.lt_irrefl _)
  have spawned : Ensures (spawnChain env asked) state (Spawned running target state asked) :=
    spawnChain_steps running target (Nat.le_refl _) alone (Nat.le_refl _)
  apply spawned.mono
  rintro response after ⟨spawn, created⟩
  refine ⟨spawn.path orderly permits ?_ ?_, ?_⟩
  · exact fun jobId member allowed =>
      absurd (Nat.lt_of_lt_of_le (orderly.scriptJobs jobId member).1 allowed) (Nat.lt_irrefl _)
  · exact fun chainId member allowed =>
      absurd (Nat.lt_of_lt_of_le (orderly.scriptChains chainId member).1 allowed) (Nat.lt_irrefl _)
  · have links : after.pendingScriptChains = state.pendingScriptChains :=
      (spawn.steps target).apart.pendingScriptChains
    have unlinked : state.pendingScriptChains.get state.nextChain = none := by
      apply Table.get_of_not_mem
      exact fun member => absurd (orderly.scriptChains _ member).1 (Nat.lt_irrefl _)
    constructor
    · rintro jobId entry rfl
      rcases created _ rfl with ⟨scope, warnings, same, -⟩ | ⟨jobIds, info, warnings, same, -⟩
      · cases same
      · cases same
    · rintro jobId scope warnings rfl
      rcases created _ rfl with ⟨_, _, same, free, present⟩ | ⟨jobIds, info, warnings, same, -⟩
      · cases same
        exact ⟨free, (after.jobs.mem_keys _).mp present⟩
      · cases same
    · rintro chainId jobIds info warnings rfl
      rcases created _ rfl with ⟨scope, warnings, same, -⟩ | ⟨_, _, _, same, completed, active⟩
      · cases same
      · cases same
        rw [links]
        refine ⟨unlinked, fun wanted => ?_⟩
        rcases kept wanted with retain | ⟨free, process⟩
        · exact completed retain
        · exact .inl (active free process)

end Spawn

section Crons

/-- Nothing happens but questions to the environment. -/
def AsksOnly (state after : SchedulerState) : Prop :=
  ∃ count, after = { state with question := state.question + count }

/-- Only the crons change, and they keep their owners. -/
def CronsOnly (running : List RunningScript) (state after : SchedulerState) : Prop :=
  ∃ count nextCron crons cronRows,
    after = { state with
      question := state.question + count, nextCron := nextCron, crons := crons, cronRows := cronRows } ∧
    ∀ cronId entry, crons.get cronId = some entry →
      (∃ known, state.crons.get cronId = some known ∧ known.sessionId = entry.sessionId) ∨
        (state.board none running).ActsFor entry.sessionId

variable {later : SchedulerState}

theorem AsksOnly.refl (state : SchedulerState) : AsksOnly state state := ⟨0, rfl⟩

theorem AsksOnly.trans {middle : SchedulerState} (first : AsksOnly state middle)
    (rest : AsksOnly middle later) : AsksOnly state later := by
  obtain ⟨count, rfl⟩ := first
  obtain ⟨more, rfl⟩ := rest
  exact ⟨count + more, by simp [Nat.add_assoc]⟩

theorem AsksOnly.path (asks : AsksOnly state later) :
    Board.Path config occasion (state.board none running) (later.board none running) := by
  obtain ⟨count, rfl⟩ := asks
  exact Board.Path.asks (state.board none running) count

theorem CronsOnly.path (changes : CronsOnly running state later) :
    Board.Path config occasion (state.board none running) (later.board none running) := by
  obtain ⟨count, nextCron, crons, cronRows, rfl, owned⟩ := changes
  refine (Board.Path.asks (state.board none running) count).trans ?_
  exact .single (.crons nextCron crons cronRows owned) (fun _ due => due) (fun _ due => due) le_rfl

variable (occasion)

theorem ask_only {α : Type} (answer : ℕ → α) :
    Ensures (ask answer) state fun _ after => AsksOnly state after := ⟨1, rfl⟩

theorem instantFromLocal_asks (point : ℤ) :
    Ensures (instantFromLocal env point) state fun _ after => AsksOnly state after := ⟨2, rfl⟩

theorem nextTriggerInstant_asks (schedule : CronSchedule) (elapsed : Duration) :
    Ensures (nextTriggerInstant env schedule elapsed) state fun _ after => AsksOnly state after := by
  unfold nextTriggerInstant
  split
  · exact ⟨1, rfl⟩
  · split
    · exact .refl state
    · exact ⟨1, rfl⟩
  all_goals
    apply Ensures.bind (ask_only _)
    intro wall after asked
    split
    · exact asked
    · refine Ensures.bind (instantFromLocal_asks _) ?_
      intro instant later more
      exact asked.trans more

theorem persistCronRecord_crons (running : List RunningScript) (cronId : CronId) (entry : CronEntry) :
    Ensures (persistCronRecord env cronId entry) state fun _ after =>
      CronsOnly running state after ∧ after.crons = state.crons := by
  have kept : ∀ cronId entry, state.crons.get cronId = some entry →
      (∃ known, state.crons.get cronId = some known ∧ known.sessionId = entry.sessionId) ∨
        (state.board none running).ActsFor entry.sessionId :=
    fun cronId entry found => .inl ⟨entry, found, rfl⟩
  unfold persistCronRecord
  apply Ensures.bind (ask_spec env.storageError)
  rintro error after ⟨-, rfl⟩
  cases error with
  | some error => exact ⟨⟨1, _, _, _, rfl, kept⟩, rfl⟩
  | none => exact ⟨⟨3, _, _, _, rfl, kept⟩, rfl⟩

/-- A cron changes and keeps its owner. -/
theorem cronsOnly_insert {cronId : CronId} {known entry : CronEntry}
    (found : state.crons.get cronId = some known) (same : entry.sessionId = known.sessionId) :
    CronsOnly running state { state with crons := state.crons.insert cronId entry } := by
  refine ⟨0, _, _, _, rfl, ?_⟩
  intro other stored present
  rw [Table.get_insert] at present
  split at present
  · rename_i here
    cases present
    exact .inl ⟨known, here ▸ found, same.symm⟩
  · exact .inl ⟨stored, present, rfl⟩

/-- A cron is added for a session the scheduler acts for. -/
theorem cronsOnly_add {cronId : CronId} {entry : CronEntry}
    (owner : (state.board none running).ActsFor entry.sessionId) :
    CronsOnly running state { state with crons := state.crons.insert cronId entry } := by
  refine ⟨0, _, _, _, rfl, ?_⟩
  intro other stored present
  rw [Table.get_insert] at present
  split at present
  · cases present
    exact .inr owner
  · exact .inl ⟨stored, present, rfl⟩

theorem removeCronEntry_serves (cronId : CronId) (retained : Bool) :
    Serves config occasion running retained (removeCronEntry env cronId) state := by
  unfold removeCronEntry
  apply Ensures.bind (ask_spec env.storageError)
  rintro error after ⟨-, rfl⟩
  cases error with
  | some error => exact ⟨Board.Path.asks (state.board none running) 1, .error ..⟩
  | none =>
    refine ⟨CronsOnly.path ⟨1, _, _, _, rfl, ?_⟩, .of_plain rfl⟩
    intro other stored present
    rw [Table.get_erase] at present
    split at present
    · cases present
    · exact .inl ⟨stored, present, rfl⟩

theorem setCronStatus_path (cronId : CronId) (status : CronStatus) :
    Ensures (setCronStatus env cronId status) state fun _ after =>
      Board.Path config occasion (state.board none running) (after.board none running) := by
  unfold setCronStatus
  apply Ensures.get
  split
  · exact .refl _
  · rename_i entry found
    have changed : CronsOnly running state
        { state with crons := state.crons.insert cronId { entry with status := status } } :=
      cronsOnly_insert found rfl
    apply Ensures.modify
    refine Ensures.bind (persistCronRecord_crons running cronId _) ?_
    rintro error after ⟨stored, -⟩
    exact changed.path.trans stored.path

theorem rescheduleCron_path (cronId : CronId) (schedule : CronSchedule) :
    Ensures (rescheduleCron env cronId schedule) state fun _ after =>
      Board.Path config occasion (state.board none running) (after.board none running) := by
  unfold rescheduleCron
  split
  · exact setCronStatus_path occasion cronId .completed
  · refine Ensures.bind (nextTriggerInstant_asks schedule 0) ?_
    intro trigger after asks
    cases trigger with
    | none => exact asks.path
    | some trigger =>
      refine asks.path.trans (CronsOnly.path ⟨0, _, _, _, rfl, ?_⟩)
      intro other stored present
      rw [Table.get_modify] at present
      split at present
      · rename_i here
        obtain ⟨known, found, rfl⟩ := Option.map_eq_some_iff.mp present
        exact .inl ⟨known, here ▸ found, rfl⟩
      · exact .inl ⟨stored, present, rfl⟩

variable (isOpen : occasion.isOpen)

include isOpen

theorem fireCron_path (cronId : CronId) (orderly : (state.board none running).Orderly) :
    Ensures (fireCron env config cronId) state fun _ after =>
      Board.Path config occasion (state.board none running) (after.board none running) := by
  unfold fireCron
  apply Ensures.get
  split
  · exact .refl _
  · rename_i entry found
    split
    · exact setCronStatus_path occasion cronId .failed
    · rename_i warnings checked
      refine Ensures.bind (spawnChain_serves occasion orderly
        (.cron isOpen cronId entry warnings found rfl rfl checked)
        fun kept : false = true => absurd kept Bool.false_ne_true) ?_
      rintro response after ⟨path, -⟩
      cases response with
      | err code message => exact (setCronStatus_path occasion cronId .failed).mono fun _ _ => path.trans
      | ok payload => exact (rescheduleCron_path occasion cronId entry.schedule).mono fun _ _ => path.trans

/-- The timer fires the due crons one after the other. -/
theorem fireDueCrons_path (orderly : (state.board none running).Orderly) :
    Ensures (fireDueCrons env config) state fun _ after =>
      Board.Path config occasion (state.board none running) (after.board none running) := by
  unfold fireDueCrons
  apply Ensures.bind (ask_only _)
  intro now asked first
  apply Ensures.get
  refine Ensures.bind (ask_only _) ?_
  intro order ready second
  have start : (fun after : SchedulerState => Board.Path config occasion (state.board none running)
      (after.board none running)) ready := (first.trans second).path
  refine Ensures.forM start ?_
  intro cronId _ reached path
  refine (fireCron_path occasion isOpen cronId (path.orderly orderly)).mono ?_
  exact fun _ _ => path.trans

end Crons

end CueShell
