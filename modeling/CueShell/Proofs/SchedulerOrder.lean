import CueShell.Model.Scheduler.Flow
import CueShell.Proofs.SchedulerSpawn

/-! # Numbers and links

Jobs, chains and scripts are numbered in the order in which they are made, so a number that has not
been given out stands nowhere. A script waits only for a job outside of all chains, or for a chain
that is active or complete.
-/

namespace CueShell

variable {target : Targets} {request : Option SpawnChainRequest} {config : Config}
variable {occasion : Occasion} {before after : Board}

/-- The job of a leaf knows its leaf. -/
def Board.Placed (board : Board) : Prop :=
  ∀ chainId chain index jobId, board.chains.get chainId = some chain →
    chain.leafJobs.get index = some jobId → board.jobToChain.get jobId = some (chainId, index)

structure Board.Orderly (board : Board) : Prop where
  leaves : board.Placed
  places : ∀ jobId ∈ board.jobToChain.keys, jobId < board.nextJob
  jobs : ∀ jobId ∈ board.jobs.keys, jobId < board.nextJob
  chains : ∀ chainId ∈ board.chains.keys, chainId < board.nextChain
  completed : ∀ chainId ∈ board.completedChains.keys, chainId < board.nextChain
  scriptJobs : ∀ jobId ∈ board.pendingScriptJobs.keys,
    jobId < board.nextJob ∧ jobId ∉ board.jobToChain.keys
  scriptChains : ∀ chainId ∈ board.pendingScriptChains.keys, chainId < board.nextChain ∧
    (chainId ∈ board.chains.keys ∨ chainId ∈ board.completedChains.keys)
  scripts : ∀ scriptId script, board.pendingScripts.get scriptId = some script →
    script.scriptId = scriptId ∧ scriptId < board.nextScript
  running : ∀ current ∈ board.running, current.script.scriptId < board.nextScript

/-- The end of a job changes what is logged and due on its chain, and nothing else. -/
theorem Board.follow_eq (board : Board) (jobId : JobId) (endScope : Option ScopeHash) :
    ∃ log work, board.follow jobId endScope = { board with log := log, work := work } := by
  unfold Board.follow
  split
  · exact ⟨_, _, rfl⟩
  · exact ⟨_, _, rfl⟩

theorem Board.keys_setLeaf (board : Board) (place : Option (ChainId × ℕ)) (status : LeafStatus) :
    (board.setLeaf place status).keys = board.chains.keys := by
  unfold Board.setLeaf
  split <;> rfl

/-- The tables of scripts and crons and the sessions are left alone by steps. -/
structure Board.Apart (before after : Board) : Prop where
  nextCron : after.nextCron = before.nextCron
  nextScript : after.nextScript = before.nextScript
  crons : after.crons = before.crons
  cronRows : after.cronRows = before.cronRows
  sessions : after.sessions = before.sessions
  pendingScripts : after.pendingScripts = before.pendingScripts
  pendingScriptJobs : after.pendingScriptJobs = before.pendingScriptJobs
  pendingScriptChains : after.pendingScriptChains = before.pendingScriptChains
  overrun : after.overrun = before.overrun
  running : after.running = before.running

theorem Board.Move.apart (move : Board.Move target before after) : before.Apart after := by
  cases move with
  | transform =>
    obtain ⟨log, work, eq⟩ := Board.follow_eq _ _ _
    rw [eq]
    exact ⟨rfl, rfl, rfl, rfl, rfl, rfl, rfl, rfl, rfl, rfl⟩
  | finish =>
    obtain ⟨log, work, eq⟩ := Board.follow_eq _ _ _
    rw [eq]
    exact ⟨rfl, rfl, rfl, rfl, rfl, rfl, rfl, rfl, rfl, rfl⟩
  | _ => exact ⟨rfl, rfl, rfl, rfl, rfl, rfl, rfl, rfl, rfl, rfl⟩

theorem Board.Step.apart (step : Board.Step target request before after) : before.Apart after := by
  cases step with
  | move change => exact change.apart
  | _ => exact ⟨rfl, rfl, rfl, rfl, rfl, rfl, rfl, rfl, rfl, rfl⟩

theorem Board.Apart.trans {first middle last : Board} (start : first.Apart middle)
    (rest : middle.Apart last) : first.Apart last where
  nextCron := rest.nextCron.trans start.nextCron
  nextScript := rest.nextScript.trans start.nextScript
  crons := rest.crons.trans start.crons
  cronRows := rest.cronRows.trans start.cronRows
  sessions := rest.sessions.trans start.sessions
  pendingScripts := rest.pendingScripts.trans start.pendingScripts
  pendingScriptJobs := rest.pendingScriptJobs.trans start.pendingScriptJobs
  pendingScriptChains := rest.pendingScriptChains.trans start.pendingScriptChains
  overrun := rest.overrun.trans start.overrun
  running := rest.running.trans start.running

theorem Board.Steps.apart (steps : Board.Steps target request before after) : before.Apart after := by
  induction steps with
  | refl => exact ⟨rfl, rfl, rfl, rfl, rfl, rfl, rfl, rfl, rfl, rfl⟩
  | tail _ step ih => exact ih.trans step.apart

/-- A new job, which may be the leaf of a chain, or none. -/
inductive Board.Counts (before after : Board) : Prop
  | same (nextJob : after.nextJob = before.nextJob) (jobs : after.jobs.keys = before.jobs.keys)
      (places : after.jobToChain = before.jobToChain)
  | job (nextJob : after.nextJob = before.nextJob + 1)
      (jobs : after.jobs.keys = insert before.nextJob before.jobs.keys)
      (places : after.jobToChain.keys ⊆ insert before.nextJob before.jobToChain.keys)

theorem Board.Move.counts (move : Board.Move target before after) :
    after.nextChain = before.nextChain ∧ after.completedChains = before.completedChains ∧
      after.chains.keys = before.chains.keys ∧ before.Counts after := by
  cases move with
  | explain jobId entry reason found =>
    exact ⟨rfl, rfl, rfl, .same rfl (Table.keys_insert_known _ _ (by simp [found])) rfl⟩
  | complete jobId entry scope found =>
    exact ⟨rfl, rfl, rfl, .same rfl (Table.keys_insert_known _ _ (by simp [found])) rfl⟩
  | grant jobId entry base grants scope found =>
    exact ⟨rfl, rfl, rfl, .same rfl (Table.keys_insert_known _ _ (by simp [found])) rfl⟩
  | enterLeaf => exact ⟨rfl, rfl, rfl, .job rfl rfl (Finset.Subset.refl _)⟩
  | parkLeaf => exact ⟨rfl, rfl, rfl, .job rfl rfl (Finset.Subset.refl _)⟩
  | transform entry update =>
    obtain ⟨log, work, eq⟩ := Board.follow_eq _ _ _
    rw [eq]
    refine ⟨rfl, rfl, Board.keys_setLeaf _ _ _, .job rfl ?_ (Finset.Subset.refl _)⟩
    exact Table.keys_insert_known _ _ (by simp [Board.enterLeaf, Table.get_insert])
  | finish jobId entry update found =>
    obtain ⟨log, work, eq⟩ := Board.follow_eq _ _ _
    rw [eq]
    refine ⟨rfl, rfl, Board.keys_setLeaf _ _ _, .same rfl ?_ rfl⟩
    exact Table.keys_insert_known _ _ (by simp [found])
  | cancelLeaf jobId entry due active started found =>
    refine ⟨rfl, rfl, Board.keys_setLeaf _ _ _, .same rfl ?_ rfl⟩
    exact Table.keys_insert_known _ _ (by simp [found])
  | _ => exact ⟨rfl, rfl, rfl, .same rfl rfl rfl⟩

/-- Counting jobs keeps the numbers in order, whatever the chains do. -/
theorem Board.Orderly.counts (orderly : before.Orderly) (apart : before.Apart after)
    (counts : before.Counts after) (leaves : after.Placed)
    (chains : ∀ chainId ∈ after.chains.keys, chainId < after.nextChain)
    (completed : ∀ chainId ∈ after.completedChains.keys, chainId < after.nextChain)
    (links : ∀ chainId ∈ before.pendingScriptChains.keys, chainId < after.nextChain ∧
      (chainId ∈ after.chains.keys ∨ chainId ∈ after.completedChains.keys)) : after.Orderly := by
  have scripts : ∀ scriptId script, after.pendingScripts.get scriptId = some script →
      script.scriptId = scriptId ∧ scriptId < after.nextScript := by
    rw [apart.pendingScripts, apart.nextScript]
    exact orderly.scripts
  have running : ∀ current ∈ after.running, current.script.scriptId < after.nextScript := by
    rw [apart.running, apart.nextScript]
    exact orderly.running
  have links' : ∀ chainId ∈ after.pendingScriptChains.keys, chainId < after.nextChain ∧
      (chainId ∈ after.chains.keys ∨ chainId ∈ after.completedChains.keys) := by
    rw [apart.pendingScriptChains]
    exact links
  cases counts with
  | same nextJob jobs places =>
    refine ⟨leaves, ?_, ?_, chains, completed, ?_, links', scripts, running⟩
    · rw [places, nextJob]
      exact orderly.places
    · rw [jobs, nextJob]
      exact orderly.jobs
    · rw [apart.pendingScriptJobs, places, nextJob]
      exact orderly.scriptJobs
  | job nextJob jobs places =>
    refine ⟨leaves, ?_, ?_, chains, completed, ?_, links', scripts, running⟩
    · intro jobId member
      rw [nextJob]
      rcases Finset.mem_insert.mp (places member) with rfl | old
      · exact Nat.lt_succ_self _
      · exact Nat.lt_succ_of_lt (orderly.places jobId old)
    · intro jobId member
      rw [jobs] at member
      rw [nextJob]
      rcases Finset.mem_insert.mp member with rfl | old
      · exact Nat.lt_succ_self _
      · exact Nat.lt_succ_of_lt (orderly.jobs jobId old)
    · intro jobId member
      rw [apart.pendingScriptJobs] at member
      rw [nextJob]
      obtain ⟨known, outside⟩ := orderly.scriptJobs jobId member
      refine ⟨Nat.lt_succ_of_lt known, fun placed => ?_⟩
      rcases Finset.mem_insert.mp (places placed) with rfl | old
      · exact absurd known (Nat.lt_irrefl _)
      · exact outside old

/-- The chains change only in the statuses of their leaves. -/
theorem Board.Placed.congr (placed : before.Placed) (places : after.jobToChain = before.jobToChain)
    (kept : ∀ chainId, (after.chains.get chainId).map ChainState.leafJobs =
      (before.chains.get chainId).map ChainState.leafJobs) : after.Placed := by
  intro chainId chain index jobId active started
  have same := kept chainId
  rw [active, Option.map_some] at same
  obtain ⟨old, known, leaves⟩ := Option.map_eq_some_iff.mp same.symm
  rw [places]
  exact placed chainId old index jobId known (by rw [leaves]; exact started)

theorem leafJobs_modify (chains : Table ChainId ChainState) (key chainId : ChainId)
    (change : ChainState → ChainState) (kept : ∀ chain, (change chain).leafJobs = chain.leafJobs) :
    ((chains.modify key change).get chainId).map ChainState.leafJobs =
      (chains.get chainId).map ChainState.leafJobs := by
  rw [Table.get_modify]
  split
  · rename_i same
    rw [same, Option.map_map]
    exact congrArg (fun shape => Option.map shape (chains.get key)) (funext kept)
  · rfl

theorem Board.leafJobs_setLeaf (board : Board) (place : Option (ChainId × ℕ)) (status : LeafStatus)
    (chainId : ChainId) : ((board.setLeaf place status).get chainId).map ChainState.leafJobs =
      (board.chains.get chainId).map ChainState.leafJobs := by
  unfold Board.setLeaf
  split
  · rfl
  · exact leafJobs_modify _ _ _ _ fun _ => rfl

/-- A new leaf gets a number that no other leaf has. -/
theorem Board.Placed.enterLeaf (placed : before.Placed)
    (known : ∀ jobId ∈ before.jobToChain.keys, jobId < before.nextJob) (chainId : ChainId)
    (chain : ChainState) (index : ℕ) (ready : List (ℕ × ScopeHash)) (status : LeafStatus)
    (entry : JobEntry) : (before.enterLeaf chainId chain index ready status entry).Placed := by
  have fresh (other : ChainId) (old : ChainState) (position : ℕ) (jobId : JobId)
      (active : before.chains.get other = some old)
      (started : old.leafJobs.get position = some jobId) : jobId ≠ before.nextJob := by
    rintro rfl
    have place := placed other old position _ active started
    have small := known _ ((before.jobToChain.mem_keys _).mpr (by rw [place]; rfl))
    exact absurd small (Nat.lt_irrefl _)
  intro other later position jobId active started
  dsimp only [Board.enterLeaf] at active ⊢
  rw [Table.get_modify] at active
  rw [Table.get_insert]
  split at active
  · rename_i here
    obtain ⟨old, found, rfl⟩ := Option.map_eq_some_iff.mp active
    dsimp only [ChainState.enter] at started
    rw [Table.get_insert] at started
    split at started
    · rename_i same
      cases started
      rw [if_pos rfl, here, same]
    · rw [if_neg (fresh _ old position jobId found started), here]
      exact placed _ old position jobId found started
  · rw [if_neg (fresh _ later position jobId active started)]
    exact placed _ later position jobId active started

theorem Board.Orderly.move_placed (orderly : before.Orderly)
    (move : Board.Move target before after) : after.Placed := by
  cases move with
  | enterLeaf => exact orderly.leaves.enterLeaf orderly.places _ _ _ _ _ _
  | @parkLeaf chainId chain index ready entry pending =>
    have entered := orderly.leaves.enterLeaf orderly.places chainId chain index ready .pending entry
    exact entered.congr rfl fun _ => rfl
  | transform entry update =>
    have entered := orderly.leaves.enterLeaf orderly.places
    obtain ⟨log, work, eq⟩ := Board.follow_eq _ _ _
    rw [eq]
    exact (entered _ _ _ _ _ _).congr rfl (Board.leafJobs_setLeaf _ _ _)
  | finish =>
    obtain ⟨log, work, eq⟩ := Board.follow_eq _ _ _
    rw [eq]
    exact orderly.leaves.congr rfl (Board.leafJobs_setLeaf _ _ _)
  | cancelIdle => exact orderly.leaves.congr rfl fun _ => leafJobs_modify _ _ _ _ fun _ => rfl
  | cancelLeaf => exact orderly.leaves.congr rfl (Board.leafJobs_setLeaf _ _ _)
  | _ => exact orderly.leaves.congr rfl fun _ => rfl

theorem Board.Orderly.move (orderly : before.Orderly) (move : Board.Move target before after) :
    after.Orderly := by
  obtain ⟨nextChain, completed, chains, counts⟩ := move.counts
  apply orderly.counts move.apart counts (orderly.move_placed move)
  · rw [chains, nextChain]
    exact orderly.chains
  · rw [completed, nextChain]
    exact orderly.completed
  · rw [chains, completed, nextChain]
    exact orderly.scriptChains

theorem Board.Orderly.step (orderly : before.Orderly) (step : Board.Step target request before after) :
    after.Orderly := by
  have apart := step.apart
  cases step with
  | move change => exact orderly.move change
  | enterJob asked entry =>
    have counts : Board.Counts before ((before.request asked).enterJob entry) :=
      .job rfl rfl (Finset.subset_insert _ _)
    exact orderly.counts apart counts (orderly.leaves.congr rfl fun _ => rfl) orderly.chains
      orderly.completed orderly.scriptChains
  | parkJob asked entry pending =>
    have counts : Board.Counts before
        (((before.request asked).enterJob entry).park before.nextJob pending) :=
      .job rfl rfl (Finset.subset_insert _ _)
    exact orderly.counts apart counts (orderly.leaves.congr rfl fun _ => rfl) orderly.chains
      orderly.completed orderly.scriptChains
  | activate asked =>
    have counts : Board.Counts before ((before.request asked).activate asked.chainState) :=
      .same rfl rfl rfl
    apply orderly.counts apart counts
    · intro chainId chain index jobId active started
      dsimp only [Board.activate] at active
      rw [Table.get_insert] at active
      split at active
      · cases active
        cases started
      · exact orderly.leaves chainId chain index jobId active started
    · intro chainId member
      rcases Finset.mem_insert.mp member with rfl | old
      · exact Nat.lt_succ_self _
      · exact Nat.lt_succ_of_lt (orderly.chains chainId old)
    · exact fun chainId member => Nat.lt_succ_of_lt (orderly.completed chainId member)
    · intro chainId member
      obtain ⟨known, open_⟩ := orderly.scriptChains chainId member
      exact ⟨Nat.lt_succ_of_lt known, open_.imp_left (Finset.mem_insert_of_mem ·)⟩
  | close chain completed due active allowed ended kept =>
    rename_i chainId
    have known : chainId < before.nextChain :=
      orderly.chains chainId ((before.chains.mem_keys chainId).mpr (by simp [active]))
    have more : before.completedChains.keys ⊆ completed.keys := by
      rcases kept with ⟨rfl, -⟩ | ⟨endScope, rfl⟩
      · exact Finset.Subset.refl _
      · exact Finset.subset_insert _ _
    refine ⟨?_, ?_, orderly.jobs, ?_, ?_, ?_, ?_, orderly.scripts, orderly.running⟩
    · intro other old index jobId stillActive started
      dsimp only [Board.close] at stillActive ⊢
      rw [Table.get_erase] at stillActive
      split at stillActive
      · cases stillActive
      · rename_i apart
        have place := orderly.leaves other old index jobId stillActive started
        have foreign : chain.ownsJob jobId = false := by
          simp only [ChainState.ownsJob, ne_eq, decide_not, Bool.not_eq_false', decide_eq_true_eq]
          refine Finset.filter_eq_empty_iff.mpr ?_
          intro position _ owned
          rw [orderly.leaves chainId chain position jobId active (by simpa using owned)] at place
          cases place
          exact apart rfl
        simp [place, foreign, Option.filter]
    · exact fun jobId member => orderly.places jobId (Table.keys_retain_subset _ _ member)
    · exact fun other member => orderly.chains other (Finset.mem_of_mem_erase member)
    · intro other member
      rcases kept with ⟨rfl, -⟩ | ⟨endScope, rfl⟩
      · exact orderly.completed other member
      · rcases Finset.mem_insert.mp member with rfl | old
        · exact known
        · exact orderly.completed other old
    · intro jobId member
      obtain ⟨old, outside⟩ := orderly.scriptJobs jobId member
      exact ⟨old, fun placed => outside (Table.keys_retain_subset _ _ placed)⟩
    · intro other member
      obtain ⟨old, waits⟩ := orderly.scriptChains other member
      refine ⟨old, ?_⟩
      by_cases same : other = chainId
      · subst same
        rcases kept with ⟨-, free⟩ | ⟨endScope, rfl⟩
        · have linked := (before.pendingScriptChains.mem_keys other).mp member
          simp [free] at linked
        · exact .inr (Finset.mem_insert_self _ _)
      · exact waits.imp (Finset.mem_erase_of_ne_of_mem same ·) (more ·)
  | resume jobId waiting entry pending first found =>
    have counts : Board.Counts before (before.resume jobId waiting entry pending.baseScope) :=
      .same rfl (Table.keys_insert_known _ _ (by simp [found])) rfl
    have chains : (before.resume jobId waiting entry pending.baseScope).chains.keys =
        before.chains.keys :=
      Board.keys_setLeaf _ _ _
    apply orderly.counts apart counts
    · exact orderly.leaves.congr rfl (Board.leafJobs_setLeaf _ _ _)
    · rw [chains]
      exact orderly.chains
    · exact orderly.completed
    · rw [chains]
      exact orderly.scriptChains
  | _ => exact ⟨orderly.leaves.congr rfl fun _ => rfl, orderly.places, orderly.jobs, orderly.chains,
      orderly.completed, orderly.scriptJobs, orderly.scriptChains, orderly.scripts, orderly.running⟩

theorem Board.Orderly.steps (orderly : before.Orderly)
    (steps : Board.Steps target request before after) : after.Orderly := by
  induction steps with
  | refl => exact orderly
  | tail _ step ih => exact ih.step step

section Flows

/-- A change that touches neither numbers nor links. -/
theorem Board.Orderly.congr (orderly : before.Orderly)
    (places : after.jobToChain = before.jobToChain) (nextJob : after.nextJob = before.nextJob)
    (jobs : after.jobs.keys ⊆ before.jobs.keys) (chains : after.chains = before.chains)
    (nextChain : after.nextChain = before.nextChain)
    (completed : after.completedChains = before.completedChains)
    (scriptJobs : after.pendingScriptJobs.keys ⊆ before.pendingScriptJobs.keys)
    (scriptChains : after.pendingScriptChains.keys ⊆ before.pendingScriptChains.keys)
    (scripts : ∀ scriptId script, after.pendingScripts.get scriptId = some script →
      script.scriptId = scriptId ∧ scriptId < after.nextScript)
    (running : ∀ current ∈ after.running, current.script.scriptId < after.nextScript) :
    after.Orderly := by
  refine ⟨orderly.leaves.congr places fun _ => by rw [chains], ?_, ?_, ?_, ?_, ?_, ?_, scripts,
    running⟩
  · rw [places, nextJob]
    exact orderly.places
  · rw [nextJob]
    exact fun jobId member => orderly.jobs jobId (jobs member)
  · rw [chains, nextChain]
    exact orderly.chains
  · rw [completed, nextChain]
    exact orderly.completed
  · rw [places, nextJob]
    exact fun jobId member => orderly.scriptJobs jobId (scriptJobs member)
  · rw [chains, completed, nextChain]
    exact fun chainId member => orderly.scriptChains chainId (scriptChains member)

theorem Board.unlink_keys (board : Board) (result : ScriptItemResult) :
    (board.unlink result).pendingScriptJobs.keys ⊆ board.pendingScriptJobs.keys ∧
      (board.unlink result).pendingScriptChains.keys ⊆ board.pendingScriptChains.keys := by
  cases result with
  | job jobId => exact ⟨Finset.erase_subset _ _, Finset.Subset.refl _⟩
  | chain chainId => exact ⟨Finset.Subset.refl _, Finset.erase_subset _ _⟩
  | cron cronId => exact ⟨Finset.Subset.refl _, Finset.Subset.refl _⟩
  | message => exact ⟨Finset.Subset.refl _, Finset.Subset.refl _⟩

theorem Board.unlink_eq (board : Board) (result : ScriptItemResult) :
    ∃ jobs chains, board.unlink result =
      { board with pendingScriptJobs := jobs, pendingScriptChains := chains } := by
  cases result <;> exact ⟨_, _, rfl⟩

/-- The scripts that wait after one of them has been taken. -/
theorem erase_scripts {nextScript : ℕ} {scripts : Table ScriptId PendingScriptRun}
    (known : ∀ scriptId script, scripts.get scriptId = some script →
      script.scriptId = scriptId ∧ scriptId < nextScript) (taken : ScriptId) :
    ∀ scriptId script, (scripts.erase taken).get scriptId = some script →
      script.scriptId = scriptId ∧ scriptId < nextScript := by
  intro scriptId script found
  rw [Table.get_erase] at found
  split at found
  · cases found
  · exact known scriptId script found

variable {outer : List RunningScript} {script later : PendingScriptRun} {mode : ScriptMode}

/-- The scripts under way after the innermost has gone on. -/
theorem running_replaced {nextScript : ℕ} {running : List RunningScript} {later : RunningScript}
    (known : ∀ current ∈ running, current.script.scriptId < nextScript)
    (current : running = ⟨script, mode⟩ :: outer)
    (same : later.script.scriptId = script.scriptId) :
    ∀ current ∈ later :: outer, current.script.scriptId < nextScript := by
  subst current
  intro current member
  rcases List.mem_cons.mp member with rfl | old
  · rw [same]
    exact known _ (List.mem_cons_self ..)
  · exact known _ (List.mem_cons_of_mem _ old)

theorem running_dropped {nextScript : ℕ} {running : List RunningScript}
    (known : ∀ current ∈ running, current.script.scriptId < nextScript)
    (current : running = ⟨script, mode⟩ :: outer) :
    ∀ current ∈ outer, current.script.scriptId < nextScript := by
  subst current
  exact fun current member => known _ (List.mem_cons_of_mem _ member)

theorem Board.Orderly.flow (orderly : before.Orderly) (flow : Board.Flow config occasion before after) :
    after.Orderly := by
  have same : before.jobs.keys ⊆ before.jobs.keys ∧
      before.pendingScriptJobs.keys ⊆ before.pendingScriptJobs.keys ∧
      before.pendingScriptChains.keys ⊆ before.pendingScriptChains.keys :=
    ⟨Finset.Subset.refl _, Finset.Subset.refl _, Finset.Subset.refl _⟩
  obtain ⟨sameJobs, sameLinks, sameChains⟩ := same
  cases flow with
  | step permitted change => exact orderly.step change
  | prune removed =>
    exact orderly.congr rfl rfl (Table.keys_retain_subset _ _) rfl rfl rfl sameLinks sameChains
      orderly.scripts orderly.running
  | forget chainId idle =>
    refine ⟨orderly.leaves.congr rfl fun _ => rfl, orderly.places, orderly.jobs, orderly.chains, ?_,
      orderly.scriptJobs, ?_, orderly.scripts, orderly.running⟩
    · exact fun other member => orderly.completed other (Finset.mem_of_mem_erase member)
    · intro other member
      obtain ⟨known, waits⟩ := orderly.scriptChains other member
      refine ⟨known, waits.imp_right (Finset.mem_erase_of_ne_of_mem ?_ ·)⟩
      rintro rfl
      have linked := (before.pendingScriptChains.mem_keys other).mp member
      simp [idle] at linked
  | skip =>
    refine orderly.congr rfl rfl sameJobs rfl rfl rfl sameLinks sameChains ?_ ?_
    · intro scriptId script found
      obtain ⟨same, known⟩ := orderly.scripts scriptId script found
      exact ⟨same, Nat.lt_succ_of_lt known⟩
    · exact fun current member => Nat.lt_succ_of_lt (orderly.running current member)
  | start isOpen script fresh =>
    refine orderly.congr rfl rfl sameJobs rfl rfl rfl sameLinks sameChains ?_ ?_
    · intro scriptId script found
      obtain ⟨same, known⟩ := orderly.scripts scriptId script found
      exact ⟨same, Nat.lt_succ_of_lt known⟩
    · intro current member
      rcases List.mem_cons.mp member with rfl | old
      · rw [fresh.scriptId]
        exact Nat.lt_succ_self _
      · exact Nat.lt_succ_of_lt (orderly.running current old)
  | submit current =>
    exact orderly.congr rfl rfl sameJobs rfl rfl rfl sameLinks sameChains orderly.scripts
      (running_replaced orderly.running current rfl)
  | pass current position ended same =>
    exact orderly.congr rfl rfl sameJobs rfl rfl rfl sameLinks sameChains orderly.scripts
      (running_replaced orderly.running current same.scriptId)
  | fail current =>
    exact orderly.congr rfl rfl sameJobs rfl rfl rfl sameLinks sameChains orderly.scripts
      (running_dropped orderly.running current)
  | reject current =>
    exact orderly.congr rfl rfl sameJobs rfl rfl rfl sameLinks sameChains orderly.scripts
      (running_dropped orderly.running current)
  | done current =>
    exact orderly.congr rfl rfl sameJobs rfl rfl rfl sameLinks sameChains orderly.scripts
      (running_dropped orderly.running current)
  | report current =>
    exact orderly.congr rfl rfl sameJobs rfl rfl rfl sameLinks sameChains orderly.scripts
      (running_dropped orderly.running current)
  | @suspend script later outer index result current position waits same waiting =>
    have scripts : ∀ scriptId script', (before.pendingScripts.insert script.scriptId later).get
        scriptId = some script' → script'.scriptId = scriptId ∧ scriptId < before.nextScript := by
      intro scriptId other found
      rw [Table.get_insert] at found
      split at found
      · rename_i here
        cases found
        rw [here]
        exact ⟨same.scriptId, orderly.running ⟨script, .busy⟩ (by simp [current])⟩
      · exact orderly.scripts scriptId other found
    have running := running_dropped orderly.running current
    cases result with
    | job jobId =>
      obtain ⟨outside, entry, found, -⟩ := waits
      refine ⟨orderly.leaves.congr rfl fun _ => rfl, orderly.places, orderly.jobs, orderly.chains,
        orderly.completed, ?_, orderly.scriptChains, scripts, running⟩
      intro other member
      rcases Finset.mem_insert.mp member with rfl | old
      · refine ⟨orderly.jobs other ((before.jobs.mem_keys other).mpr (by simp [found])), ?_⟩
        intro placed
        have present := (before.jobToChain.mem_keys other).mp placed
        simp [outside] at present
      · exact orderly.scriptJobs other old
    | chain chainId =>
      have active : chainId ∈ before.chains.keys := (before.chains.mem_keys chainId).mpr waits
      refine ⟨orderly.leaves.congr rfl fun _ => rfl, orderly.places, orderly.jobs, orderly.chains,
        orderly.completed, orderly.scriptJobs, ?_, scripts, running⟩
      intro other member
      rcases Finset.mem_insert.mp member with rfl | old
      · exact ⟨orderly.chains other active, .inl active⟩
      · exact orderly.scriptChains other old
    | cron cronId => exact waits.elim
    | message => exact waits.elim
  | unlink result =>
    obtain ⟨jobs, chains⟩ := before.unlink_keys result
    obtain ⟨_, _, eq⟩ := before.unlink_eq result
    rw [eq] at jobs chains ⊢
    exact orderly.congr rfl rfl sameJobs rfl rfl rfl jobs chains orderly.scripts orderly.running
  | @resume scriptId script later result link found ended same =>
    obtain ⟨jobs, chains⟩ := before.unlink_keys result
    obtain ⟨_, _, eq⟩ := before.unlink_eq result
    rw [eq] at jobs chains ⊢
    refine orderly.congr rfl rfl sameJobs rfl rfl rfl jobs chains (erase_scripts orderly.scripts _) ?_
    intro current member
    rcases List.mem_cons.mp member with rfl | old
    · obtain ⟨known, small⟩ := orderly.scripts scriptId script found
      dsimp only
      rw [same.scriptId, known]
      exact small
    · exact orderly.running current old
  | @abort scriptId script result exitCode link found ended failed =>
    obtain ⟨jobs, chains⟩ := before.unlink_keys result
    obtain ⟨_, _, eq⟩ := before.unlink_eq result
    rw [eq] at jobs chains ⊢
    exact orderly.congr rfl rfl sameJobs rfl rfl rfl jobs chains (erase_scripts orderly.scripts _)
      orderly.running
  | @stop scriptId script currentJob currentChain found job chain =>
    refine orderly.congr rfl rfl sameJobs rfl rfl rfl ?_ ?_ (erase_scripts orderly.scripts _) ?_
    · cases currentJob with
      | none => exact sameLinks
      | some jobId => exact Finset.erase_subset _ _
    · cases currentChain with
      | none => exact sameChains
      | some chainId => exact Finset.erase_subset _ _
    · intro current member
      rcases List.mem_cons.mp member with rfl | old
      · obtain ⟨known, small⟩ := orderly.scripts scriptId script found
        dsimp only
        rw [known]
        exact small
      · exact orderly.running current old
  | _ => exact ⟨orderly.leaves.congr rfl fun _ => rfl, orderly.places, orderly.jobs, orderly.chains,
      orderly.completed, orderly.scriptJobs, orderly.scriptChains, orderly.scripts, orderly.running⟩

theorem Board.Orderly.flows (orderly : before.Orderly)
    (flows : Board.Flows config occasion before after) : after.Orderly := by
  induction flows with
  | refl => exact orderly
  | tail _ flow ih => exact ih.flow flow

end Flows

end CueShell
