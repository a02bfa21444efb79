import CueShell.Proofs.SchedulerTurns

/-! # Work that follows from other work

While clients and crons may start nothing, a chain is spawned only for an item of a script under way,
and a leaf is entered only for an active chain. The events since such a time begin say so, and count the
numbers given to new jobs and chains. A scheduler with nothing left to do stays that way.
-/

namespace CueShell

open Relation (ReflTransGen)

variable {env : Env} {config : Config} {occasion : Occasion} {before after : Board}
variable {target : Targets} {request : Option SpawnChainRequest} {drained : SchedulerState}

section Events

/-- An event that starts no work. -/
def SchedulerEvent.isQuiet : SchedulerEvent → Bool
  | .spawned _ _ | .entered _ _ _ | .launched _ _ _ _ _ | .scriptStarted _ _ => false
  | _ => true

def SchedulerEvent.isSpawn : SchedulerEvent → Bool
  | .spawned _ _ => true
  | _ => false

/-- An event that may give a job its number. -/
def SchedulerEvent.isEntry : SchedulerEvent → Bool
  | .spawned _ _ | .entered _ _ _ => true
  | _ => false

theorem SchedulerEvent.isSpawn_of_quiet {event : SchedulerEvent} (quiet : event.isQuiet) :
    ¬ event.isSpawn := by
  cases event <;> simp_all [isQuiet, isSpawn]

theorem SchedulerEvent.isEntry_of_quiet {event : SchedulerEvent} (quiet : event.isQuiet) :
    ¬ event.isEntry := by
  cases event <;> simp_all [isQuiet, isEntry]

/-- The events since a state follow from the work that was under way in it. -/
structure Succession (drained : SchedulerState) (events : List SchedulerEvent)
    (after : SchedulerState) : Prop where
  log : after.log = drained.log ++ events
  /-- A chain is spawned right after a script that was pending has submitted an item. -/
  spawned : ∀ earlier chain scope rest, events = earlier ++ .spawned chain scope :: rest →
    ∃ front scriptId index command requester jobs sessions,
      earlier = front ++ [.itemSubmitted scriptId index, .command command requester jobs sessions] ∧
        scriptId ∈ drained.pendingScripts.keys
  started : ∀ scriptId count, .scriptStarted scriptId count ∉ events
  /-- A leaf gets a job if its chain was active or has been spawned since. -/
  entered : ∀ chainId index status, .entered chainId index status ∈ events →
    chainId ∈ drained.chains.keys ∨ drained.nextChain ≤ chainId
  /-- A process is started for a job that was known or has been entered since. -/
  launched : ∀ jobId plan scope options held, .launched jobId plan scope options held ∈ events →
    jobId ∈ drained.jobs.keys ∨ drained.nextJob ≤ jobId
  /-- No chain gets a number but by being spawned. -/
  chains : after.nextChain ≤ drained.nextChain + events.countP SchedulerEvent.isSpawn
  /-- No job gets a number but as a leaf or by being spawned. -/
  jobs : after.nextJob ≤ drained.nextJob + events.countP SchedulerEvent.isEntry

end Events

section Growth

/-- What a step adds to the log, and the numbers it gives out. -/
inductive Board.Growth (request : Option SpawnChainRequest) (before after : Board) : Prop
  | quiet (events : List SchedulerEvent) (log : after.log = before.log ++ events)
      (quiet : ∀ event ∈ events, event.isQuiet) (nextJob : after.nextJob = before.nextJob)
      (nextChain : after.nextChain = before.nextChain)
  | entered (chainId : ChainId) (index : ℕ) (status : Option LeafStatus)
      (events : List SchedulerEvent)
      (log : after.log = before.log ++ .entered chainId index status :: events)
      (quiet : ∀ event ∈ events, event.isQuiet) (active : chainId ∈ before.chains.keys)
      (nextJob : after.nextJob = before.nextJob + 1) (nextChain : after.nextChain = before.nextChain)
  | launched (jobId : JobId) (plan : JobPlan) (scope : ScopeHash) (options : ProcessJobOptions)
      (held : List Grant) (log : after.log = before.log ++ [.launched jobId plan scope options held])
      (known : jobId ∈ before.jobs.keys) (nextJob : after.nextJob = before.nextJob)
      (nextChain : after.nextChain = before.nextChain)
  | spawned (asked : SpawnChainRequest) (due : request = some asked)
      (log : after.log = before.log ++ [.spawned asked.chain asked.scopeHash])
      (nextJob : after.nextJob ≤ before.nextJob + 1) (nextChain : after.nextChain ≤ before.nextChain + 1)

theorem Board.follow_log (board : Board) (jobId : JobId) (endScope : Option ScopeHash) :
    ∃ events, (board.follow jobId endScope).log = board.log ++ events ∧
      ∀ event ∈ events, event.isQuiet := by
  unfold Board.follow
  split
  · exact ⟨[], by simp, by simp⟩
  · exact ⟨_, rfl, by simp [SchedulerEvent.isQuiet]⟩

theorem Board.answers_quiet (board : Board) (jobId : JobId) (entry : JobEntry) :
    ∀ event ∈ board.answers jobId entry, event.isQuiet := by
  intro event member
  obtain ⟨waiter, -, rfl⟩ := List.mem_map.mp member
  rfl

theorem Board.finish_follow_log (board : Board) (jobId : JobId) (entry : JobEntry)
    (update : TerminalStateUpdate) (endScope : Option ScopeHash) :
    ∃ events, ((board.finish jobId entry update).follow jobId endScope).log = board.log ++ events ∧
      ∀ event ∈ events, event.isQuiet := by
  obtain ⟨events, log, quiet⟩ := (board.finish jobId entry update).follow_log jobId endScope
  refine ⟨board.answers jobId (entry.ended update) ++ events, ?_, ?_⟩
  · rw [log]
    simp [Board.finish]
  · intro event member
    rcases List.mem_append.mp member with answer | later
    · exact board.answers_quiet jobId _ event answer
    · exact quiet event later

theorem Board.follow_numbers (board : Board) (jobId : JobId) (endScope : Option ScopeHash) :
    (board.follow jobId endScope).nextJob = board.nextJob ∧
      (board.follow jobId endScope).nextChain = board.nextChain := by
  obtain ⟨log, work, same⟩ := board.follow_eq jobId endScope
  rw [same]
  exact ⟨rfl, rfl⟩

theorem Board.Move.growth (move : Board.Move target before after) :
    Board.Growth request before after := by
  have active {chainId : ChainId} {chain : ChainState} (found : before.chains.get chainId = some chain) :
      chainId ∈ before.chains.keys := (before.chains.mem_keys chainId).mpr (by simp [found])
  cases move with
  | grant => exact .quiet _ rfl (by simp [SchedulerEvent.isQuiet]) rfl rfl
  | launch jobId entry plan scope options found =>
    exact .launched jobId plan scope options _ rfl
      ((before.jobs.mem_keys jobId).mpr (by simp [found])) rfl rfl
  | enterLeaf entry due found => exact .entered _ _ _ [] rfl (by simp) (active found) rfl rfl
  | parkLeaf entry pending due found => exact .entered _ _ _ [] rfl (by simp) (active found) rfl rfl
  | @transform chainId chain index base ready entry update due found =>
    let entered := before.enterLeaf chainId chain index ready .running entry
    obtain ⟨events, log, quiet⟩ :=
      entered.finish_follow_log before.nextJob entry update (entry.ended update).endScope
    obtain ⟨nextJob, nextChain⟩ := (entered.finish before.nextJob entry update).follow_numbers
      before.nextJob (entry.ended update).endScope
    refine .entered chainId index (chain.leafStatus index) events ?_ quiet (active found) nextJob
      nextChain
    rw [log]
    simp [entered, Board.enterLeaf]
  | finish jobId entry update =>
    obtain ⟨events, log, quiet⟩ :=
      before.finish_follow_log jobId entry update (entry.ended update).endScope
    obtain ⟨nextJob, nextChain⟩ := (before.finish jobId entry update).follow_numbers jobId
      (entry.ended update).endScope
    exact .quiet events log quiet nextJob nextChain
  | cancelLeaf jobId entry => exact .quiet _ rfl (before.answers_quiet jobId _) rfl rfl
  | refuse => exact .quiet _ rfl (by simp [SchedulerEvent.isQuiet]) rfl rfl
  | _ => exact .quiet [] (List.append_nil _).symm (by simp) rfl rfl

theorem Board.Step.growth (step : Board.Step target request before after) :
    Board.Growth request before after := by
  cases step with
  | move change => exact change.growth
  | spawn asked due => exact .spawned asked due rfl (Nat.le_succ _) (Nat.le_succ _)
  | enterJob asked entry due => exact .spawned asked due rfl le_rfl (Nat.le_succ _)
  | parkJob asked entry pending due => exact .spawned asked due rfl le_rfl (Nat.le_succ _)
  | activate asked due => exact .spawned asked due rfl (Nat.le_succ _) le_rfl
  | close => exact .quiet _ rfl (by simp [SchedulerEvent.isQuiet]) rfl rfl
  | fault => exact .quiet _ rfl (by simp [SchedulerEvent.isQuiet]) rfl rfl
  | _ => exact .quiet [] (List.append_nil _).symm (by simp) rfl rfl

theorem Board.Step.nextChain_le (step : Board.Step target request before after) :
    before.nextChain ≤ after.nextChain := by
  cases step with
  | move change => exact change.counts.1.ge
  | activate => exact Nat.le_succ _
  | _ => exact Nat.le_refl _

theorem Board.Step.chains_keys (step : Board.Step target request before after) :
    after.chains.keys ⊆ insert before.nextChain before.chains.keys := by
  cases step with
  | move change =>
    obtain ⟨-, -, chains, -⟩ := change.counts
    rw [chains]
    exact Finset.subset_insert _ _
  | activate => exact Finset.Subset.refl _
  | close => exact (Finset.erase_subset _ _).trans (Finset.subset_insert _ _)
  | resume jobId =>
    have kept := before.keys_setLeaf (before.jobToChain.get jobId) .running
    exact (le_of_eq kept).trans (Finset.subset_insert _ _)
  | _ => exact Finset.subset_insert _ _

end Growth

section Scripts

/-- The scripts under way, and what has been logged since they went on. -/
structure Board.Heirs (drained : SchedulerState) (events : List SchedulerEvent) (board : Board) :
    Prop where
  scripts : ∀ scriptId ∈ board.pendingScripts.keys, scriptId ∈ drained.pendingScripts.keys
  running : ∀ current ∈ board.running, current.script.scriptId ∈ drained.pendingScripts.keys
  resumed : board.running ≠ [] → events ≠ []
  busy : ∀ current ∈ board.running, current.mode = .busy → 2 ≤ events.length

variable {events : List SchedulerEvent}

/-- Nothing but the log changes for the scripts. -/
theorem Board.Heirs.same (heirs : before.Heirs drained events) (more : List SchedulerEvent)
    (scripts : after.pendingScripts = before.pendingScripts) (running : after.running = before.running) :
    after.Heirs drained (events ++ more) where
  scripts := by
    rw [scripts]
    exact heirs.scripts
  running := by
    rw [running]
    exact heirs.running
  resumed := by
    rw [running]
    intro under
    simp [heirs.resumed under]
  busy := by
    rw [running]
    intro current member mode
    have enough := heirs.busy current member mode
    rw [List.length_append]
    omega

/-- The script on top changes, and is not under way with an item. -/
theorem Board.Heirs.replaced {script later : PendingScriptRun} {mode next : ScriptMode}
    {outer : List RunningScript} (heirs : before.Heirs drained events) (more : List SchedulerEvent)
    (current : before.running = ⟨script, mode⟩ :: outer) (same : later.scriptId = script.scriptId)
    (long : next = .busy → more ≠ []) (scripts : after.pendingScripts = before.pendingScripts)
    (running : after.running = ⟨later, next⟩ :: outer) : after.Heirs drained (events ++ more) where
  scripts := by
    rw [scripts]
    exact heirs.scripts
  running := by
    intro other member
    rw [running] at member
    rcases List.mem_cons.mp member with rfl | deeper
    · rw [same]
      exact heirs.running ⟨script, mode⟩ (by simp [current])
    · exact heirs.running other (by simp [current, deeper])
  resumed := by
    intro
    simp [heirs.resumed (by simp [current])]
  busy := by
    intro other member busy
    have some_ := List.length_pos_iff.mpr (heirs.resumed (by simp [current]))
    rw [List.length_append]
    rw [running] at member
    rcases List.mem_cons.mp member with rfl | deeper
    · have added := List.length_pos_iff.mpr (long busy)
      omega
    · have enough := heirs.busy other (by simp [current, deeper]) busy
      omega

/-- The script on top ends. -/
theorem Board.Heirs.dropped {script : PendingScriptRun} {mode : ScriptMode}
    {outer : List RunningScript} (heirs : before.Heirs drained events) (more : List SchedulerEvent)
    (current : before.running = ⟨script, mode⟩ :: outer)
    (scripts : ∀ scriptId ∈ after.pendingScripts.keys,
      scriptId ∈ before.pendingScripts.keys ∨ scriptId = script.scriptId)
    (running : after.running = outer) : after.Heirs drained (events ++ more) where
  scripts := by
    intro scriptId member
    rcases scripts scriptId member with old | rfl
    · exact heirs.scripts scriptId old
    · exact heirs.running ⟨script, mode⟩ (by simp [current])
  running := by
    intro other member
    rw [running] at member
    exact heirs.running other (by simp [current, member])
  resumed := by
    intro
    simp [heirs.resumed (by simp [current])]
  busy := by
    intro other member busy
    rw [running] at member
    have enough := heirs.busy other (by simp [current, member]) busy
    rw [List.length_append]
    omega

/-- A script that waited goes on, or is stopped. -/
theorem Board.Heirs.taken {script later : PendingScriptRun} {scriptId : ScriptId} {mode : ScriptMode}
    (heirs : before.Heirs drained events) (orderly : before.Orderly) {more : List SchedulerEvent}
    (found : before.pendingScripts.get scriptId = some script)
    (same : later.scriptId = script.scriptId) (idle : mode ≠ .busy) (noted : more ≠ [])
    (scripts : after.pendingScripts = before.pendingScripts.erase scriptId)
    (running : after.running = before.running ∨ after.running = ⟨later, mode⟩ :: before.running) :
    after.Heirs drained (events ++ more) where
  scripts := by
    intro other member
    rw [scripts] at member
    exact heirs.scripts other (Finset.mem_of_mem_erase member)
  running := by
    intro other member
    rcases running with kept | pushed
    · rw [kept] at member
      exact heirs.running other member
    · rw [pushed] at member
      rcases List.mem_cons.mp member with rfl | deeper
      · rw [same, (orderly.scripts scriptId script found).1]
        exact heirs.scripts scriptId ((before.pendingScripts.mem_keys _).mpr (by simp [found]))
      · exact heirs.running other deeper
  resumed := by
    intro
    simp [noted]
  busy := by
    intro other member busy
    have old : other ∈ before.running := by
      rcases running with kept | pushed
      · rwa [kept] at member
      · rw [pushed] at member
        rcases List.mem_cons.mp member with rfl | deeper
        · exact absurd busy idle
        · exact deeper
    have enough := heirs.busy other old busy
    rw [List.length_append]
    omega

/-- While nothing new may be started, chains are spawned for scripts only. -/
theorem Board.Permits.submits {asked : SpawnChainRequest}
    (permits : before.Permits config occasion asked) (shut : occasion.isOpen = false) :
    before.Submits := by
  have closed : ¬ occasion.isOpen = true := by simp [shut]
  cases permits with
  | run warnings owner checked source => exact source.resolve_left closed
  | cron isOpen => exact absurd isOpen closed
  | retry id requester jobId entry noted named found ended start text sessionId source owner seen =>
    exact source.resolve_left closed

/-- While nothing new may be started, a flow is a step for an item of a script, or it starts nothing. -/
theorem Board.Flow.heirs (flow : Board.Flow config occasion before after)
    (shut : occasion.isOpen = false) (orderly : before.Orderly) (heirs : before.Heirs drained events) :
    (∃ target request, Board.Step target request before after ∧
      ∀ asked, request = some asked → before.Submits) ∨
    ∃ more, after.log = before.log ++ more ∧ (∀ event ∈ more, event.isQuiet) ∧
      after.Heirs drained (events ++ more) := by
  have closed : ¬ occasion.isOpen = true := by simp [shut]
  have silent (scripts : after.pendingScripts = before.pendingScripts)
      (running : after.running = before.running) (log : after.log = before.log) :
      ∃ more, after.log = before.log ++ more ∧ (∀ event ∈ more, event.isQuiet) ∧
        after.Heirs drained (events ++ more) :=
    ⟨[], by rw [log, List.append_nil], by simp, heirs.same [] scripts running⟩
  cases flow with
  | step permitted change =>
    exact .inl ⟨_, _, change, fun asked due => (permitted asked due).submits shut⟩
  | command => exact .inr ⟨_, rfl, by simp [SchedulerEvent.isQuiet], heirs.same _ rfl rfl⟩
  | unsaved => exact .inr ⟨_, rfl, by simp [SchedulerEvent.isQuiet], heirs.same _ rfl rfl⟩
  | wait => exact .inr ⟨_, rfl, by simp [SchedulerEvent.isQuiet], heirs.same _ rfl rfl⟩
  | answer => exact .inr ⟨_, rfl, by simp [SchedulerEvent.isQuiet], heirs.same _ rfl rfl⟩
  | reply => exact .inr ⟨_, rfl, by simp [SchedulerEvent.isQuiet], heirs.same _ rfl rfl⟩
  | crons => exact .inr (silent rfl rfl rfl)
  | scope => exact .inr (silent rfl rfl rfl)
  | defaults => exact .inr (silent rfl rfl rfl)
  | prune => exact .inr (silent rfl rfl rfl)
  | forget => exact .inr (silent rfl rfl rfl)
  | skip => exact .inr (silent rfl rfl rfl)
  | start isOpen => exact absurd isOpen closed
  | @submit script outer item items current =>
    let next : PendingScriptRun := { script with items := items, nextIndex := script.nextIndex + 1 }
    have same : next.scriptId = script.scriptId := rfl
    exact .inr ⟨_, rfl, by simp [SchedulerEvent.isQuiet],
      heirs.replaced _ current same (by simp) rfl rfl⟩
  | pass current position ended same =>
    exact .inr ⟨_, rfl, by simp [SchedulerEvent.isQuiet],
      heirs.replaced _ current same.scriptId (by simp) rfl rfl⟩
  | fail current position ended failed report reported =>
    refine .inr ⟨_, rfl, ?_, heirs.dropped _ current (fun _ => .inl) rfl⟩
    rcases reported with rfl | rfl <;> simp [SchedulerEvent.isQuiet]
  | reject current position report reported =>
    refine .inr ⟨_, rfl, ?_, heirs.dropped _ current (fun _ => .inl) rfl⟩
    rcases reported with rfl | rfl <;> simp [SchedulerEvent.isQuiet]
  | done current last report reported =>
    refine .inr ⟨_, rfl, ?_, heirs.dropped _ current (fun _ => .inl) rfl⟩
    rcases reported with rfl | rfl <;> simp [SchedulerEvent.isQuiet]
  | @suspend script later outer index result current position waits same =>
    refine .inr ⟨[], ?_, by simp, heirs.dropped [] current ?_ rfl⟩
    · rw [List.append_nil]
      exact before.log_link _ _
    · intro scriptId member
      rcases Finset.mem_insert.mp member with rfl | old
      · exact .inr rfl
      · exact .inl old
  | unlink result =>
    obtain ⟨jobs, chains, same⟩ := before.unlink_eq result
    rw [same] at silent ⊢
    exact .inr (silent rfl rfl rfl)
  | @resume scriptId script later result link found ended same =>
    obtain ⟨jobs, chains, changed⟩ := before.unlink_eq result
    rw [changed]
    exact .inr ⟨_, rfl, by simp [SchedulerEvent.isQuiet],
      heirs.taken orderly found same.scriptId (by simp) (by simp) rfl (.inr rfl)⟩
  | @abort scriptId script result exitCode link found =>
    obtain ⟨jobs, chains, changed⟩ := before.unlink_eq result
    rw [changed]
    exact .inr ⟨_, rfl, by simp [SchedulerEvent.isQuiet],
      heirs.taken orderly found rfl (by simp : ScriptMode.idle ≠ .busy) (by simp) rfl (.inl rfl)⟩
  | stop currentJob currentChain found =>
    exact .inr ⟨_, rfl, by simp [SchedulerEvent.isQuiet],
      heirs.taken orderly found rfl (by simp) (by simp) rfl (.inr rfl)⟩
  | report current =>
    exact .inr ⟨_, rfl, by simp [SchedulerEvent.isQuiet],
      heirs.dropped _ current (fun _ => .inl) rfl⟩

end Scripts

section Successions

variable {events more : List SchedulerEvent}

/-- An event that follows from the work of the drained state and the events since. -/
structure SchedulerEvent.Follows (drained : SchedulerState) (events : List SchedulerEvent)
    (event : SchedulerEvent) : Prop where
  spawned : ∀ chain scope, event = .spawned chain scope →
    ∃ front scriptId index command requester jobs sessions,
      events = front ++ [.itemSubmitted scriptId index, .command command requester jobs sessions] ∧
        scriptId ∈ drained.pendingScripts.keys
  started : ∀ scriptId count, event ≠ .scriptStarted scriptId count
  entered : ∀ chainId index status, event = .entered chainId index status →
    chainId ∈ drained.chains.keys ∨ drained.nextChain ≤ chainId
  launched : ∀ jobId plan scope options held, event = .launched jobId plan scope options held →
    jobId ∈ drained.jobs.keys ∨ drained.nextJob ≤ jobId

theorem SchedulerEvent.Follows.of_quiet {event : SchedulerEvent} (quiet : event.isQuiet) :
    event.Follows drained events := by
  constructor <;> rintro _ _ <;> cases event <;> simp_all [SchedulerEvent.isQuiet]

variable {middle later : SchedulerState} {event : SchedulerEvent}

theorem Succession.note (succession : Succession drained events middle)
    (follows : event.Follows drained events) (log : later.log = middle.log ++ [event])
    (nextChain : later.nextChain ≤ middle.nextChain + [event].countP SchedulerEvent.isSpawn)
    (nextJob : later.nextJob ≤ middle.nextJob + [event].countP SchedulerEvent.isEntry) :
    Succession drained (events ++ [event]) later where
  log := by rw [log, succession.log, List.append_assoc]
  spawned earlier chain scope rest split := by
    rcases List.eq_nil_or_concat rest with rfl | ⟨between, last, rfl⟩
    · obtain ⟨rfl, same⟩ := List.append_inj' split rfl
      exact follows.spawned chain scope (List.singleton_inj.mp same)
    · rw [List.concat_eq_append, ← List.cons_append, ← List.append_assoc] at split
      exact succession.spawned earlier chain scope between (List.append_inj' split rfl).1
  started scriptId count member := by
    rcases List.mem_append.mp member with old | new
    · exact succession.started scriptId count old
    · exact follows.started scriptId count (List.mem_singleton.mp new).symm
  entered chainId index status member := by
    rcases List.mem_append.mp member with old | new
    · exact succession.entered chainId index status old
    · exact follows.entered chainId index status (List.mem_singleton.mp new).symm
  launched jobId plan scope options held member := by
    rcases List.mem_append.mp member with old | new
    · exact succession.launched jobId plan scope options held old
    · exact follows.launched jobId plan scope options held (List.mem_singleton.mp new).symm
  chains := by
    rw [List.countP_append, ← Nat.add_assoc]
    exact nextChain.trans (Nat.add_le_add_right succession.chains _)
  jobs := by
    rw [List.countP_append, ← Nat.add_assoc]
    exact nextJob.trans (Nat.add_le_add_right succession.jobs _)

/-- Quiet events follow from nothing in particular. -/
theorem Succession.quiet (succession : Succession drained events middle)
    (quiet : ∀ event ∈ more, event.isQuiet) (log : later.log = middle.log ++ more)
    (nextChain : later.nextChain = middle.nextChain) (nextJob : later.nextJob = middle.nextJob) :
    Succession drained (events ++ more) later := by
  induction more generalizing events middle with
  | nil =>
    rw [List.append_nil] at log ⊢
    exact ⟨log ▸ succession.log, succession.spawned, succession.started, succession.entered,
      succession.launched, nextChain ▸ succession.chains, nextJob ▸ succession.jobs⟩
  | cons event more ih =>
    have first : Succession drained (events ++ [event]) { middle with log := middle.log ++ [event] } :=
      succession.note (.of_quiet (quiet event (by simp))) rfl (Nat.le_add_right _ _)
        (Nat.le_add_right _ _)
    rw [List.append_cons]
    refine ih first (fun other member => quiet other (by simp [member])) ?_ nextChain nextJob
    rw [log, List.append_cons]

/-- What a board keeps while all work follows from the work of the drained state. -/
structure Board.Succeeds (drained : SchedulerState) (events : List SchedulerEvent) (board : Board) :
    Prop extends Succession drained events board.toSchedulerState where
  heirs : board.Heirs drained events
  active : ∀ chainId ∈ board.chains.keys, chainId ∈ drained.chains.keys ∨ drained.nextChain ≤ chainId
  known : ∀ jobId ∈ board.jobs.keys, jobId ∈ drained.jobs.keys ∨ drained.nextJob ≤ jobId
  nextChain : drained.nextChain ≤ board.nextChain
  nextJob : drained.nextJob ≤ board.nextJob

theorem Board.Submits.item (submits : before.Submits) (heirs : before.Heirs drained events)
    (log : before.log = drained.log ++ events) :
    ∃ front scriptId index command requester jobs sessions,
      events = front ++ [.itemSubmitted scriptId index, .command command requester jobs sessions] ∧
        scriptId ∈ drained.pendingScripts.keys := by
  obtain ⟨script, outer, earlier, index, command, requester, jobs, sessions, under, ends⟩ := submits
  have member : (⟨script, .busy⟩ : RunningScript) ∈ before.running := by simp [under]
  have long := heirs.busy _ member rfl
  refine ⟨events.take (events.length - 2), script.scriptId, index, command, requester, jobs,
    sessions, ?_, heirs.running _ member⟩
  -- The script went on after the state was drained, so both events are new.
  have tail : events.drop (events.length - 2) =
      [.itemSubmitted script.scriptId index, .command command requester jobs sessions] := by
    have same := log.symm.trans ends
    rw [← List.take_append_drop (events.length - 2) events, ← List.append_assoc] at same
    refine (List.append_inj' same ?_).2
    rw [List.length_drop]
    simp only [List.length_cons, List.length_nil]
    omega
  rw [← tail, List.take_append_drop]

theorem Board.Succeeds.step (succeeds : before.Succeeds drained events)
    (step : Board.Step target request before after)
    (source : ∀ asked, request = some asked → before.Submits) :
    ∃ more, after.Succeeds drained (events ++ more) := by
  have active : ∀ chainId ∈ after.chains.keys,
      chainId ∈ drained.chains.keys ∨ drained.nextChain ≤ chainId := by
    intro chainId member
    rcases Finset.mem_insert.mp (step.chains_keys member) with rfl | old
    · exact .inr succeeds.nextChain
    · exact succeeds.active chainId old
  have known : ∀ jobId ∈ after.jobs.keys, jobId ∈ drained.jobs.keys ∨ drained.nextJob ≤ jobId := by
    intro jobId member
    rcases Finset.mem_insert.mp (step.jobs_keys member) with rfl | old
    · exact .inr succeeds.nextJob
    · exact succeeds.known jobId old
  have assemble (more : List SchedulerEvent)
      (succession : Succession drained (events ++ more) after.toSchedulerState) :
      ∃ more, after.Succeeds drained (events ++ more) :=
    ⟨more, succession, succeeds.heirs.same more step.apart.pendingScripts step.apart.running, active,
      known, succeeds.nextChain.trans step.nextChain_le, succeeds.nextJob.trans step.nextJob_le⟩
  cases step.growth with
  | quiet more log quiet nextJob nextChain =>
    exact assemble more (succeeds.toSuccession.quiet quiet log nextChain nextJob)
  | entered chainId index status more log quiet present nextJob nextChain =>
    let middle : SchedulerState := { after.toSchedulerState with
      log := before.log ++ [.entered chainId index status] }
    have first : Succession drained (events ++ [.entered chainId index status]) middle := by
      have follows : SchedulerEvent.Follows drained events (.entered chainId index status) := by
        refine ⟨nofun, nofun, ?_, nofun⟩
        rintro _ _ _ ⟨⟩
        exact succeeds.active chainId present
      exact succeeds.toSuccession.note follows rfl nextChain.le nextJob.le
    refine assemble (.entered chainId index status :: more) ?_
    rw [List.append_cons]
    refine first.quiet quiet ?_ rfl rfl
    rw [log, List.append_cons]
  | launched jobId plan scope options held log present nextJob nextChain =>
    have follows : SchedulerEvent.Follows drained events
        (.launched jobId plan scope options held) := by
      refine ⟨nofun, nofun, nofun, ?_⟩
      rintro _ _ _ _ _ ⟨⟩
      exact succeeds.known jobId present
    exact assemble _ (succeeds.toSuccession.note follows log nextChain.le nextJob.le)
  | spawned asked due log nextJob nextChain =>
    have follows : SchedulerEvent.Follows drained events
        (.spawned asked.chain asked.scopeHash) := by
      refine ⟨?_, nofun, nofun, nofun⟩
      intro _ _ _
      exact (source asked due).item succeeds.heirs succeeds.log
    exact assemble _ (succeeds.toSuccession.note follows log nextChain nextJob)

theorem Board.Succeeds.flow (succeeds : before.Succeeds drained events) (orderly : before.Orderly)
    (shut : occasion.isOpen = false) (flow : Board.Flow config occasion before after) :
    ∃ more, after.Succeeds drained (events ++ more) := by
  rcases flow.heirs shut orderly succeeds.heirs with ⟨_, _, step, source⟩ | ⟨more, log, quiet, heirs⟩
  · exact succeeds.step step source
  · have rest (nextJob : after.nextJob = before.nextJob) (nextChain : after.nextChain = before.nextChain)
        (chains : after.chains = before.chains) (jobs : after.jobs.keys ⊆ before.jobs.keys) :
        ∃ more, after.Succeeds drained (events ++ more) := by
      refine ⟨more, succeeds.toSuccession.quiet quiet log nextChain nextJob, heirs, ?_, ?_, ?_, ?_⟩
      · rw [chains]
        exact succeeds.active
      · exact fun jobId member => succeeds.known jobId (jobs member)
      · exact nextChain ▸ succeeds.nextChain
      · exact nextJob ▸ succeeds.nextJob
    rcases flow.kinds with ⟨_, _, step, permitted⟩ | ⟨removed, -, rfl⟩ | beside
    · exact succeeds.step step fun asked due => (permitted asked due).submits shut
    · exact rest rfl rfl rfl (Table.keys_retain_subset _ _)
    · exact rest beside.nextJob beside.nextChain beside.chains (by rw [beside.jobs])

theorem Board.Succeeds.flows (succeeds : before.Succeeds drained events) (orderly : before.Orderly)
    (shut : occasion.isOpen = false) (flows : Board.Flows config occasion before after) :
    ∃ more, after.Succeeds drained (events ++ more) := by
  induction flows with
  | refl => exact ⟨[], by rwa [List.append_nil]⟩
  | tail path flow ih =>
    obtain ⟨more, reached⟩ := ih
    obtain ⟨last, succeeds⟩ := reached.flow (orderly.flows path) shut flow
    exact ⟨more ++ last, by rwa [← List.append_assoc]⟩

/-- Every state is its own successor. -/
theorem SchedulerState.succeeds (state : SchedulerState) : state.rest.Succeeds state [] where
  log := (List.append_nil _).symm
  spawned earlier chain scope rest split := by simp at split
  started _ _ member := nomatch member
  entered _ _ _ member := nomatch member
  launched _ _ _ _ _ member := nomatch member
  chains := Nat.le_refl _
  jobs := Nat.le_refl _
  heirs :=
    { scripts := fun _ member => member
      running := fun _ member => nomatch member
      resumed := fun under => (under rfl).elim
      busy := fun _ member => nomatch member }
  active _ := .inl
  known _ := .inl
  nextChain := Nat.le_refl _
  nextJob := Nat.le_refl _

/-- A turn while nothing new may be started. -/
theorem Board.Succeeds.turn (succeeds : middle.rest.Succeeds drained events) (resting : middle.Resting)
    (turn : Turn env config false middle later) :
    ∃ more, later.rest.Succeeds drained (events ++ more) := by
  have sessions (sessions : SessionRegistry) (question : ℕ) :
      (SchedulerState.rest { middle with sessions := sessions, question := question }).Succeeds drained
        (events ++ []) := by
    obtain ⟨⟨log, spawned, started, entered, launched, chains, jobs⟩, ⟨scripts, running, resumed, busy⟩,
      active, known, nextChain, nextJob⟩ := succeeds
    rw [List.append_nil]
    exact ⟨⟨log, spawned, started, entered, launched, chains, jobs⟩,
      ⟨scripts, running, resumed, busy⟩, active, known, nextChain, nextJob⟩
  cases turn with
  | round round allowed =>
    exact succeeds.flows resting.orderly (by simpa using allowed) round.flows
  | sweep => exact ⟨[], sessions _ _⟩
  | connect clientId sessionId refresh => exact ⟨[], sessions _ _⟩
  | session clientId command => exact ⟨[], sessions _ _⟩
  | disconnect clientId => exact ⟨[], sessions _ _⟩

theorem SchedulerState.Resting.succeeds (resting : drained.Resting)
    (turns : Turns env config false drained later) : ∃ events, later.rest.Succeeds drained events := by
  induction turns with
  | refl => exact ⟨[], drained.succeeds⟩
  | tail turns turn ih =>
    obtain ⟨events, succeeds⟩ := ih
    obtain ⟨more, succeeds⟩ := succeeds.turn (resting.turns turns) turn
    exact ⟨_, succeeds⟩

end Successions

section Idle

/-- Every job has ended, and no chain, script or parked job is left. -/
structure SchedulerState.Idle (state : SchedulerState) : Prop where
  jobs : ∀ jobId entry, state.jobs.get jobId = some entry → entry.status.isTerminal
  chains : state.chains.keys = ∅
  scripts : state.pendingScripts.keys = ∅
  parked : state.pendingResource.keys = ∅

theorem schedulerIsIdleForRestart_iff (state : SchedulerState) :
    schedulerIsIdleForRestart state ↔ state.Idle := by
  simp only [schedulerIsIdleForRestart, Bool.and_eq_true, decide_eq_true_eq]
  constructor
  · rintro ⟨⟨⟨jobs, chains⟩, scripts⟩, parked⟩
    refine ⟨fun jobId entry found => ?_, chains, scripts, parked⟩
    simpa [found] using jobs jobId ((state.jobs.mem_keys jobId).mpr (by simp [found]))
  · rintro ⟨jobs, chains, scripts, parked⟩
    refine ⟨⟨⟨fun jobId _ => ?_, chains⟩, scripts⟩, parked⟩
    cases found : state.jobs.get jobId with
    | none => rfl
    | some entry => exact jobs jobId entry found

/-- A board on which nothing can happen but bookkeeping. -/
structure Board.Idle (board : Board) : Prop extends board.toSchedulerState.Idle where
  work : board.work = none
  running : board.running = []

theorem Board.Idle.unplaced (idle : before.Idle) {chainId : ChainId} {chain : ChainState} :
    before.chains.get chainId ≠ some chain := by
  intro active
  have member := (before.chains.mem_keys chainId).mpr (by simp [active])
  rw [idle.chains] at member
  exact Finset.notMem_empty chainId member

theorem Board.Idle.unparked (idle : before.Idle) {jobId : JobId} {pending : PendingResourceAdmission} :
    before.pendingResource.get jobId ≠ some pending := by
  intro parked
  have member := (before.pendingResource.mem_keys jobId).mpr (by simp [parked])
  rw [idle.parked] at member
  exact Finset.notMem_empty jobId member

theorem Board.Idle.move (idle : before.Idle) (move : Board.Move target before after) : after.Idle := by
  obtain ⟨⟨jobs, chains, scripts, parked⟩, work, running⟩ := idle
  have ended {jobId : JobId} {entry later : JobEntry} (found : before.jobs.get jobId = some entry)
      (same : later.status = entry.status) :
      ∀ other stored, (before.jobs.insert jobId later).get other = some stored →
        stored.status.isTerminal := by
    intro other stored present
    rw [Table.get_insert] at present
    split at present
    · cases present
      rw [same]
      exact jobs jobId entry found
    · exact jobs other stored present
  have nothing {due : Work} : before.work ≠ some due := by simp [work]
  cases move with
  | ask => exact ⟨⟨jobs, chains, scripts, parked⟩, work, running⟩
  | store => exact ⟨⟨jobs, chains, scripts, parked⟩, work, running⟩
  | explain jobId entry reason found =>
    exact ⟨⟨ended found rfl, chains, scripts, parked⟩, work, running⟩
  | complete jobId entry scope found =>
    exact ⟨⟨ended found rfl, chains, scripts, parked⟩, work, running⟩
  | reserve => exact ⟨⟨jobs, chains, scripts, parked⟩, work, running⟩
  | release => exact ⟨⟨jobs, chains, scripts, parked⟩, work, running⟩
  | grant jobId entry base grants scope found =>
    exact ⟨⟨ended found rfl, chains, scripts, parked⟩, work, running⟩
  | launch => exact ⟨⟨jobs, chains, scripts, parked⟩, work, running⟩
  | finish jobId entry update found unfinished => exact absurd (jobs jobId entry found) unfinished
  | enterLeaf entry due => exact absurd due nothing
  | parkLeaf entry pending due => exact absurd due nothing
  | transform entry update due => exact absurd due nothing
  | cancelIdle due => exact absurd due nothing
  | cancelLeaf jobId entry due => exact absurd due nothing
  | skip jobId due => exact absurd due nothing
  | refuse jobId entry due => exact absurd due nothing

theorem Board.Idle.step (idle : before.Idle) (step : Board.Step target none before after) :
    after.Idle := by
  have nothing {due : Work} : before.work ≠ some due := by simp [idle.work]
  obtain ⟨⟨jobs, chains, scripts, parked⟩, work, running⟩ := id idle
  cases step with
  | move change => exact idle.move change
  | spawn asked due => cases due
  | enterJob asked entry due => cases due
  | parkJob asked entry pending due => cases due
  | activate asked due => cases due
  | begin chainId chain active => exact absurd active idle.unplaced
  | close chain completed due => exact absurd due nothing
  | rest due => exact absurd due nothing
  | fault => exact ⟨⟨jobs, chains, scripts, parked⟩, work, running⟩
  | drop => exact ⟨⟨jobs, chains, scripts, parked⟩, rfl, running⟩
  | lost due => exact absurd due nothing
  | discard jobId =>
    refine ⟨⟨jobs, chains, scripts, ?_⟩, work, running⟩
    rw [Table.keys_erase, parked]
    rfl
  | rotate => exact ⟨⟨jobs, chains, scripts, parked⟩, work, running⟩
  | resume jobId waiting entry pending first found status parked =>
    exact absurd parked idle.unparked

theorem Board.Idle.unscripted (idle : before.Idle) {scriptId : ScriptId} {script : PendingScriptRun} :
    before.pendingScripts.get scriptId ≠ some script := by
  intro waiting
  have member := (before.pendingScripts.mem_keys scriptId).mpr (by simp [waiting])
  rw [idle.scripts] at member
  exact Finset.notMem_empty scriptId member

/-- While nothing new may be started, an idle board stays idle. -/
theorem Board.Idle.flow (idle : before.Idle) (shut : occasion.isOpen = false)
    (flow : Board.Flow config occasion before after) : after.Idle := by
  have nobody {current : RunningScript} {outer : List RunningScript} :
      before.running ≠ current :: outer := by simp [idle.running]
  obtain ⟨⟨jobs, chains, scripts, parked⟩, work, running⟩ := id idle
  cases flow with
  | @step _ target request permitted change =>
    cases request with
    | none => exact idle.step change
    | some asked =>
      obtain ⟨script, outer, _, _, _, _, _, _, under, -⟩ := (permitted asked rfl).submits shut
      exact absurd under nobody
  | prune removed =>
    refine ⟨⟨fun jobId entry found => ?_, chains, scripts, parked⟩, work, running⟩
    exact jobs jobId entry (Board.get_pruned found).2
  | start isOpen => simp [shut] at isOpen
  | submit current => exact absurd current nobody
  | pass current => exact absurd current nobody
  | fail current => exact absurd current nobody
  | reject current => exact absurd current nobody
  | done current => exact absurd current nobody
  | suspend current => exact absurd current nobody
  | report current => exact absurd current nobody
  | unlink result =>
    obtain ⟨_, _, same⟩ := before.unlink_eq result
    rw [same]
    exact ⟨⟨jobs, chains, scripts, parked⟩, work, running⟩
  | resume link found => exact absurd found idle.unscripted
  | abort link found => exact absurd found idle.unscripted
  | stop currentJob currentChain found => exact absurd found idle.unscripted
  | _ => exact ⟨⟨jobs, chains, scripts, parked⟩, work, running⟩

theorem Board.Idle.flows (idle : before.Idle) (shut : occasion.isOpen = false)
    (flows : Board.Flows config occasion before after) : after.Idle := by
  induction flows with
  | refl => exact idle
  | tail _ flow ih => exact ih.flow shut flow

variable {state later : SchedulerState}

theorem SchedulerState.Idle.turn (idle : state.Idle) (turn : Turn env config false state later) :
    later.Idle := by
  cases turn with
  | round round allowed =>
    have start : state.rest.Idle := ⟨idle, rfl, rfl⟩
    exact (start.flows (by simpa using allowed) round.flows).toIdle
  | sweep => exact ⟨idle.jobs, idle.chains, idle.scripts, idle.parked⟩
  | connect => exact ⟨idle.jobs, idle.chains, idle.scripts, idle.parked⟩
  | session => exact ⟨idle.jobs, idle.chains, idle.scripts, idle.parked⟩
  | disconnect => exact ⟨idle.jobs, idle.chains, idle.scripts, idle.parked⟩

theorem SchedulerState.Idle.turns (idle : state.Idle) (turns : Turns env config false state later) :
    later.Idle := by
  induction turns with
  | refl => exact idle
  | tail _ turn ih => exact ih.turn turn

end Idle

end CueShell
