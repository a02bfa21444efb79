import CueShell.Proofs.SchedulerShutdown
import CueShell.Proofs.SessionArchives

/-! # Owners of work

A chain is spawned for a command, a due cron or a retry, and what it is made of belongs to the session it
was spawned for. The jobs, chains and scripts of a session go back to the clients that were in it.
-/

namespace CueShell

variable {env : Env} {config : Config} {occasion : Occasion} {before after : Board}
variable {target : Targets} {request : Option SpawnChainRequest} {isOpen : Bool}

section Spawns

variable {chain : ChainNode} {scope : ScopeHash}

/-- A job that a command may retry: it has ended, its start scope is known and the one who asks may see
it. -/
structure Retries (id : String) (requester : Option SessionId) (jobs : Table JobId JobEntry)
    (entry : JobEntry) : Prop where
  named : ∃ jobId, parseJobId id = some jobId ∧ jobs.get jobId = some entry
  seen : ∀ session, requester = some session → entry.sessionId = some session
  ended : entry.status.isTerminal
  start : entry.startScope.isSome

theorem Board.Step.spawned (step : Board.Step target request before after)
    (member : .spawned chain scope ∈ after.log) :
    .spawned chain scope ∈ before.log ∨ ∃ asked, request = some asked ∧ asked.chain = chain := by
  cases step.growth with
  | quiet events log quiet =>
    rw [log] at member
    rcases List.mem_append.mp member with old | new
    · exact .inl old
    · cases quiet _ new
  | entered chainId index status events log quiet =>
    rw [log] at member
    rcases List.mem_append.mp member with old | new
    · exact .inl old
    · rcases List.mem_cons.mp new with same | later
      · cases same
      · cases quiet _ later
  | launched jobId plan scope options held log =>
    rw [log] at member
    exact .inl (by simpa using member)
  | spawned asked due log =>
    rw [log] at member
    rcases List.mem_append.mp member with old | new
    · exact .inl old
    · cases List.mem_singleton.mp new
      exact .inr ⟨asked, due, rfl⟩

/-- A chain is spawned for a reason. -/
theorem Board.Flow.spawned (flow : Board.Flow config occasion before after)
    (member : .spawned chain scope ∈ after.log) :
    .spawned chain scope ∈ before.log ∨
      ∃ asked, before.Permits config occasion asked ∧ asked.chain = chain := by
  have noted {events : List SchedulerEvent} (log : after.log = before.log ++ events)
      (other : .spawned chain scope ∉ events) : .spawned chain scope ∈ before.log := by
    rw [log] at member
    exact (List.mem_append.mp member).resolve_right other
  cases flow with
  | step permitted change =>
    refine (change.spawned member).imp_right ?_
    rintro ⟨asked, due, same⟩
    exact ⟨asked, permitted asked due, same⟩
  | fail current position ended failed report reported =>
    exact .inl (noted rfl (by rcases reported with rfl | rfl <;> simp))
  | reject current position report reported =>
    exact .inl (noted rfl (by rcases reported with rfl | rfl <;> simp))
  | done current last report reported =>
    exact .inl (noted rfl (by rcases reported with rfl | rfl <;> simp))
  | @suspend script later outer index result =>
    dsimp only at member
    rw [Board.log_link] at member
    exact .inl member
  | unlink result link gone =>
    rw [Board.log_unlink] at member
    exact .inl member
  | @resume scriptId script later result =>
    dsimp only [Board.note] at member
    rw [Board.log_unlink] at member
    exact .inl (by simpa using member)
  | @abort scriptId script result exitCode =>
    dsimp only [Board.note] at member
    rw [Board.log_unlink] at member
    exact .inl (by simpa using member)
  | crons => exact .inl member
  | scope => exact .inl member
  | defaults => exact .inl member
  | prune => exact .inl member
  | forget => exact .inl member
  | skip => exact .inl member
  | _ => exact .inl (noted rfl (by simp))

end Spawns

section Steps

variable {jobId : JobId} {chainId : ChainId}

/-- A chain belongs to the session it was spawned for. -/
theorem Board.Step.chain_owner (step : Board.Step target request before after) {chain : ChainState}
    (found : after.chains.get chainId = some chain) :
    (∃ earlier, before.chains.get chainId = some earlier ∧ chain.sessionId = earlier.sessionId) ∨
      ∃ asked, request = some asked ∧ chain.sessionId = asked.sessionId := by
  have shaped (same : (after.chains.get chainId).map ChainState.shape =
      (before.chains.get chainId).map ChainState.shape) :
      ∃ earlier, before.chains.get chainId = some earlier ∧ chain.sessionId = earlier.sessionId := by
    rw [found] at same
    obtain ⟨earlier, known, shape⟩ := Option.map_eq_some_iff.mp same.symm
    have owner : earlier.shape.sessionId = chain.shape.sessionId := by rw [shape]
    exact ⟨earlier, known, owner.symm⟩
  cases step with
  | move change => exact .inl (shaped (change.shape target chainId))
  | resume => exact .inl (shaped (Board.shape_setLeaf ..))
  | activate asked due =>
    dsimp only [Board.activate] at found
    rw [Table.get_insert] at found
    split at found
    · cases found
      exact .inr ⟨asked, due, rfl⟩
    · exact .inl ⟨chain, found, rfl⟩
  | close =>
    dsimp only [Board.close] at found
    rw [Table.get_erase] at found
    split at found
    · cases found
    · exact .inl ⟨chain, found, rfl⟩
  | _ => exact .inl ⟨chain, found, rfl⟩

/-- A new job belongs to the session of its chain, or to the one it was spawned for. -/
theorem Board.Step.new_job (step : Board.Step target request before after) (orderly : before.Orderly)
    {entry : JobEntry} (found : after.jobs.get before.nextJob = some entry) :
    entry.status.isTerminal ∨
      (∃ chainId chain, before.chains.get chainId = some chain ∧ entry.sessionId = chain.sessionId) ∨
      ∃ asked, request = some asked ∧ entry.sessionId = asked.sessionId := by
  have old (keys : after.jobs.keys = before.jobs.keys) : False := by
    have present := (after.jobs.mem_keys _).mpr (by rw [found]; rfl)
    rw [keys] at present
    exact Nat.lt_irrefl _ (orderly.jobs _ present)
  have inserted {jobs : Table JobId JobEntry} {known : JobEntry}
      (stored : (jobs.insert before.nextJob known).get before.nextJob = some entry) : known = entry := by
    rw [Table.get_insert, if_pos rfl] at stored
    exact Option.some.inj stored
  cases step with
  | move change =>
    obtain ⟨-, -, -, counts⟩ := change.counts
    cases counts with
    | same nextJob jobs => exact (old jobs).elim
    | job nextJob =>
      cases change with
      | @enterLeaf chainId chain index base ready fresh due active process inside new =>
        have same : fresh = entry := inserted found
        exact .inr (.inl ⟨chainId, chain, active, same ▸ new.sessionId⟩)
      | @parkLeaf chainId chain index ready fresh pending due active process inside new =>
        have same : fresh = entry := inserted found
        exact .inr (.inl ⟨chainId, chain, active, same ▸ new.sessionId⟩)
      | transform fresh update due active transforms inside new ended =>
        rw [Board.follow_jobs] at found
        have same : fresh.ended update = entry := inserted found
        exact .inl (same ▸ ended)
      | finish =>
        rw [(Board.follow_numbers ..).1] at nextJob
        exact absurd nextJob (Nat.ne_of_lt (Nat.lt_succ_self _))
      | _ => exact absurd nextJob (Nat.ne_of_lt (Nat.lt_succ_self _))
  | enterJob asked fresh due new =>
    have same : fresh = entry := inserted found
    exact .inr (.inr ⟨asked, due, same ▸ new.sessionId⟩)
  | parkJob asked fresh pending due new =>
    have same : fresh = entry := inserted found
    exact .inr (.inr ⟨asked, due, same ▸ new.sessionId⟩)
  | resume changed waiting known pending first stored =>
    exact (old (Table.keys_insert_known _ _ (by simp [stored]))).elim
  | _ => exact (old rfl).elim

/-- A job that has not ended goes back to a job that had not, to a chain or to a request. -/
theorem Board.Step.job_owner (step : Board.Step target request before after) (orderly : before.Orderly)
    {entry : JobEntry} (found : after.jobs.get jobId = some entry) (unfinished : ¬ entry.status.isTerminal) :
    (∃ earlier, before.jobs.get jobId = some earlier ∧ ¬ earlier.status.isTerminal ∧
        entry.sessionId = earlier.sessionId) ∨
      (∃ chainId chain, before.chains.get chainId = some chain ∧ entry.sessionId = chain.sessionId) ∨
      ∃ asked, request = some asked ∧ entry.sessionId = asked.sessionId := by
  rcases Finset.mem_insert.mp (step.jobs_keys ((after.jobs.mem_keys jobId).mpr (by simp [found])))
    with rfl | old
  · exact .inr ((step.new_job orderly found).resolve_left unfinished)
  · obtain ⟨earlier, known⟩ := Option.isSome_iff_exists.mp ((before.jobs.mem_keys jobId).mp old)
    obtain ⟨later, stored, advances⟩ := step.job orderly known
    cases found.symm.trans stored
    refine .inl ⟨earlier, known, fun ended => unfinished ?_, advances.evolves.sessionId⟩
    rw [(advances.evolves.ended ended).1]
    exact ended

end Steps

section Flows

variable {chainId : ChainId} {jobId : JobId} {cronId : CronId}

/-- A script that waits or is under way. -/
def Board.HasScript (board : Board) (script : PendingScriptRun) : Prop :=
  (∃ scriptId, board.pendingScripts.get scriptId = some script) ∨
    ∃ current ∈ board.running, current.script = script

theorem Board.HasScript.inner {board : Board} {current : RunningScript} {outer : List RunningScript}
    (running : board.running = current :: outer) : board.HasScript current.script :=
  .inr ⟨current, by simp [running], rfl⟩

theorem Board.HasScript.outer {board : Board} {current other : RunningScript}
    {outer : List RunningScript} (running : board.running = current :: outer) (member : other ∈ outer) :
    board.HasScript other.script :=
  .inr ⟨other, by simp [running, member], rfl⟩

theorem Board.Flow.chain_owner (flow : Board.Flow config occasion before after) {chain : ChainState}
    (found : after.chains.get chainId = some chain) :
    (∃ earlier, before.chains.get chainId = some earlier ∧ chain.sessionId = earlier.sessionId) ∨
      ∃ asked, before.Permits config occasion asked ∧ chain.sessionId = asked.sessionId := by
  rcases flow.kinds with ⟨target, request, step, permitted⟩ | ⟨removed, -, rfl⟩ | beside
  · refine (step.chain_owner found).imp_right ?_
    rintro ⟨asked, due, same⟩
    exact ⟨asked, permitted asked due, same⟩
  · exact .inl ⟨chain, found, rfl⟩
  · rw [beside.chains] at found
    exact .inl ⟨chain, found, rfl⟩

theorem Board.Flow.job_owner (flow : Board.Flow config occasion before after)
    (orderly : before.Orderly) {entry : JobEntry} (found : after.jobs.get jobId = some entry)
    (unfinished : ¬ entry.status.isTerminal) :
    (∃ earlier, before.jobs.get jobId = some earlier ∧ ¬ earlier.status.isTerminal ∧
        entry.sessionId = earlier.sessionId) ∨
      (∃ chainId chain, before.chains.get chainId = some chain ∧ entry.sessionId = chain.sessionId) ∨
      ∃ asked, before.Permits config occasion asked ∧ entry.sessionId = asked.sessionId := by
  rcases flow.kinds with ⟨target, request, step, permitted⟩ | ⟨removed, -, rfl⟩ | beside
  · refine (step.job_owner orderly found unfinished).imp_right (Or.imp_right ?_)
    rintro ⟨asked, due, same⟩
    exact ⟨asked, permitted asked due, same⟩
  · exact .inl ⟨entry, (Board.get_pruned found).2, unfinished, rfl⟩
  · rw [beside.jobs] at found
    exact .inl ⟨entry, found, unfinished, rfl⟩

/-- A script belongs to the session of the script it was, or it is new and acts for a client. -/
theorem Board.Flow.script_owner (flow : Board.Flow config occasion before after)
    {script : PendingScriptRun} (has : after.HasScript script) :
    (∃ earlier, before.HasScript earlier ∧ script.sessionId = earlier.sessionId) ∨
      before.ActsFor script.sessionId := by
  have erased {table : Table ScriptId PendingScriptRun} {scriptId : ScriptId}
      (same : table = before.pendingScripts)
      (kept : ∃ other, (table.erase scriptId).get other = some script) : before.HasScript script := by
    obtain ⟨other, found⟩ := kept
    rw [Table.get_erase, same] at found
    split at found
    · cases found
    · exact .inl ⟨other, found⟩
  cases flow with
  | step permitted change =>
    rw [Board.HasScript, change.apart.pendingScripts, change.apart.running] at has
    exact .inl ⟨script, has, rfl⟩
  | start isOpen fresh known owner =>
    rcases has with waits | ⟨current, member, rfl⟩
    · exact .inl ⟨script, .inl waits, rfl⟩
    · rcases List.mem_cons.mp member with rfl | old
      · exact .inr (.inl ⟨_, owner⟩)
      · exact .inl ⟨_, .inr ⟨current, old, rfl⟩, rfl⟩
  | submit current next =>
    rcases has with waits | ⟨other, member, rfl⟩
    · exact .inl ⟨script, .inl waits, rfl⟩
    · rcases List.mem_cons.mp member with rfl | old
      · exact .inl ⟨_, .inner current, rfl⟩
      · exact .inl ⟨_, .outer current old, rfl⟩
  | pass current position ended same =>
    rcases has with waits | ⟨other, member, rfl⟩
    · exact .inl ⟨script, .inl waits, rfl⟩
    · rcases List.mem_cons.mp member with rfl | old
      · exact .inl ⟨_, .inner current, same.sessionId⟩
      · exact .inl ⟨_, .outer current old, rfl⟩
  | fail current | reject current | done current | report current =>
    rcases has with waits | ⟨other, member, rfl⟩
    · exact .inl ⟨script, .inl waits, rfl⟩
    · exact .inl ⟨_, .outer current member, rfl⟩
  | @suspend known later outer index result current position waits same =>
    rcases has with ⟨scriptId, found⟩ | ⟨other, member, rfl⟩
    · have kept : (before.link known.scriptId result).pendingScripts = before.pendingScripts := by
        cases result <;> rfl
      dsimp only at found
      rw [Table.get_insert] at found
      split at found
      · cases found
        exact .inl ⟨_, .inner current, same.sessionId⟩
      · exact .inl ⟨script, .inl ⟨scriptId, found⟩, rfl⟩
    · exact .inl ⟨_, .outer current member, rfl⟩
  | unlink result =>
    cases result <;> exact .inl ⟨script, has, rfl⟩
  | @resume scriptId known later result link found ended same =>
    have kept : (before.unlink result).pendingScripts = before.pendingScripts := by
      cases result <;> rfl
    rcases has with waits | ⟨other, member, rfl⟩
    · exact .inl ⟨script, erased rfl waits, rfl⟩
    · rcases List.mem_cons.mp member with rfl | old
      · exact .inl ⟨known, .inl ⟨scriptId, found⟩, same.sessionId⟩
      · exact .inl ⟨_, .inr ⟨other, old, rfl⟩, rfl⟩
  | @abort scriptId known result =>
    have kept : (before.unlink result).running = before.running := by
      cases result <;> rfl
    rcases has with waits | under
    · exact .inl ⟨script, erased rfl waits, rfl⟩
    · exact .inl ⟨script, .inr (kept ▸ under), rfl⟩
  | @stop scriptId known currentJob currentChain found =>
    rcases has with waits | ⟨other, member, rfl⟩
    · exact .inl ⟨script, erased rfl waits, rfl⟩
    · rcases List.mem_cons.mp member with rfl | old
      · exact .inl ⟨known, .inl ⟨scriptId, found⟩, rfl⟩
      · exact .inl ⟨_, .inr ⟨other, old, rfl⟩, rfl⟩
  | _ => exact .inl ⟨script, has, rfl⟩

/-- A cron belongs to the session it belonged to, or to the one who adds it. -/
theorem Board.Flow.cron_owner (flow : Board.Flow config occasion before after) {entry : CronEntry}
    (found : after.crons.get cronId = some entry) :
    (∃ known, before.crons.get cronId = some known ∧ entry.sessionId = known.sessionId) ∨
      before.ActsFor entry.sessionId := by
  cases flow with
  | step permitted change =>
    rw [change.apart.crons] at found
    exact .inl ⟨entry, found, rfl⟩
  | crons nextCron crons cronRows owned =>
    refine (owned cronId entry found).imp_left ?_
    rintro ⟨known, stored, same⟩
    exact ⟨known, stored, same.symm⟩
  | @suspend script later outer index result => cases result <;> exact .inl ⟨entry, found, rfl⟩
  | unlink result => cases result <;> exact .inl ⟨entry, found, rfl⟩
  | @resume scriptId script later result => cases result <;> exact .inl ⟨entry, found, rfl⟩
  | @abort scriptId script result => cases result <;> exact .inl ⟨entry, found, rfl⟩
  | _ => exact .inl ⟨entry, found, rfl⟩

/-- Commands about anything but sessions archive none, and move no client. -/
theorem Board.Flow.sessions_fade {ids : List SessionId}
    (flow : Board.Flow config occasion before after)
    (sound : SessionRegistry.Sound ids before.sessions) :
    SessionRegistry.Sound ids after.sessions ∧
      SessionRegistry.Fades before.sessions after.sessions := by
  have unchanged (same : after.sessions = before.sessions) :
      SessionRegistry.Sound ids after.sessions ∧
        SessionRegistry.Fades before.sessions after.sessions := by
    rw [same]
    exact ⟨sound, .refl _⟩
  cases flow with
  | step permitted change => exact unchanged change.apart.sessions
  | scope answers clientId hash =>
    exact ⟨sound.updateClientSessionScope clientId hash,
      SessionRegistry.updateScope_fades clientId hash⟩
  | defaults answers key session defaults found =>
    exact ⟨sound.updateDefaults found defaults,
      SessionRegistry.updateDefaults_fades found defaults⟩
  | @suspend script later outer index result => cases result <;> exact unchanged rfl
  | unlink result => cases result <;> exact unchanged rfl
  | @resume scriptId script later result => cases result <;> exact unchanged rfl
  | @abort scriptId script result => cases result <;> exact unchanged rfl
  | _ => exact unchanged rfl

theorem Board.Step.question (step : Board.Step target request before after) :
    before.question ≤ after.question := by
  cases step with
  | move change =>
    cases change with
    | ask => exact Nat.le_succ _
    | @transform chainId chain index base ready entry update =>
      obtain ⟨log, work, same⟩ := Board.follow_eq ((before.enterLeaf chainId chain index ready .running
        entry).finish before.nextJob entry update) before.nextJob (entry.ended update).endScope
      rw [same]
      exact Nat.le_refl _
    | finish jobId entry update =>
      obtain ⟨log, work, same⟩ :=
        Board.follow_eq (before.finish jobId entry update) jobId (entry.ended update).endScope
      rw [same]
      exact Nat.le_refl _
    | _ => exact Nat.le_refl _
  | _ => exact Nat.le_refl _

/-- Questions are numbered. -/
theorem Board.Flow.question (flow : Board.Flow config occasion before after) :
    before.question ≤ after.question := by
  cases flow with
  | step permitted change => exact change.question
  | @suspend script later outer index result => cases result <;> exact Nat.le_refl _
  | unlink result => cases result <;> exact Nat.le_refl _
  | @resume scriptId script later result => cases result <;> exact Nat.le_refl _
  | @abort scriptId script result => cases result <;> exact Nat.le_refl _
  | _ => exact Nat.le_refl _

end Flows

section Quiet

/-- An owner that is no archived session. -/
def SessionRegistry.Live (registry : SessionRegistry) (owner : Option SessionId) : Prop :=
  ∀ id, owner = some id → ¬ registry.Archived id

theorem SessionRegistry.Live.fades {before after : SessionRegistry} {owner : Option SessionId}
    (live : before.Live owner) (fades : Fades before after) : after.Live owner :=
  fun id is archived => live id is (fades.archived archived)

/-- Archived sessions own no work, and nobody is in them. -/
structure Board.Quiet (ids : List SessionId) (board : Board) : Prop where
  sound : SessionRegistry.Sound ids board.sessions
  vacant : board.sessions.Vacant
  jobs : ∀ jobId entry, board.jobs.get jobId = some entry → ¬ entry.status.isTerminal →
    board.sessions.Live entry.sessionId
  chains : ∀ chainId chain, board.chains.get chainId = some chain → board.sessions.Live chain.sessionId
  scripts : ∀ script, board.HasScript script → board.sessions.Live script.sessionId
  crons : ∀ cronId entry, board.crons.get cronId = some entry → board.sessions.Live entry.sessionId

/-- Whenever a job is retried by somebody outside of the named sessions, its session is not archived. -/
def RetriesLive (log : List SchedulerEvent) : Prop :=
  ∀ id jobs sessions entry, .command (.retry id) none jobs sessions ∈ log →
    Retries id none jobs entry → (parseChainText entry.pipelineText).isSome →
      sessions.Live entry.sessionId

theorem RetriesLive.earlier {first last : List SchedulerEvent} (retries : RetriesLive last)
    (part : first <+: last) : RetriesLive first :=
  fun id jobs sessions entry noted => retries id jobs sessions entry (part.subset noted)

variable {ids : List SessionId}

theorem Board.Quiet.acts (quiet : before.Quiet ids) {owner : Option SessionId}
    (acts : before.ActsFor owner) : before.sessions.Live owner := by
  rcases acts with ⟨clientId, rfl⟩ | ⟨current, member, rfl⟩
  · exact fun id is => quiet.sound.client_active quiet.vacant is
  · exact quiet.scripts current.script (.inr ⟨current, member, rfl⟩)

theorem Board.Quiet.permits (quiet : before.Quiet ids) {asked : SpawnChainRequest}
    (permits : before.Permits config occasion asked) (retries : RetriesLive before.log) :
    before.sessions.Live asked.sessionId := by
  cases permits with
  | run warnings owner => exact quiet.acts owner
  | cron isOpen cronId entry warnings found chain sessionId =>
    rw [sessionId]
    exact quiet.crons cronId entry found
  | retry id requester jobId entry noted named found ended start text sessionId source owner seen =>
    rw [sessionId]
    cases requester with
    | none =>
      exact retries id before.jobs before.sessions entry noted
        ⟨⟨jobId, named, found⟩, seen, ended, by simp [start]⟩ (by simp [text])
    | some session =>
      rw [seen session rfl]
      exact quiet.acts owner

theorem Board.Quiet.flow (quiet : before.Quiet ids) (orderly : before.Orderly)
    (flow : Board.Flow config occasion before after) (retries : RetriesLive before.log) :
    after.Quiet ids := by
  obtain ⟨sound, fades⟩ := flow.sessions_fade quiet.sound
  refine ⟨sound, fades.vacant quiet.vacant, ?_, ?_, ?_, ?_⟩
  · intro jobId entry found unfinished
    rcases flow.job_owner orderly found unfinished with ⟨earlier, known, still, same⟩ |
      ⟨chainId, chain, active, same⟩ | ⟨asked, permits, same⟩
    · exact same ▸ (quiet.jobs jobId earlier known still).fades fades
    · exact same ▸ (quiet.chains chainId chain active).fades fades
    · exact same ▸ (quiet.permits permits retries).fades fades
  · intro chainId chain found
    rcases flow.chain_owner found with ⟨earlier, known, same⟩ | ⟨asked, permits, same⟩
    · exact same ▸ (quiet.chains chainId earlier known).fades fades
    · exact same ▸ (quiet.permits permits retries).fades fades
  · intro script has
    rcases flow.script_owner has with ⟨earlier, known, same⟩ | acts
    · exact same ▸ (quiet.scripts earlier known).fades fades
    · exact (quiet.acts acts).fades fades
  · intro cronId entry found
    rcases flow.cron_owner found with ⟨known, stored, same⟩ | acts
    · exact same ▸ (quiet.crons cronId known stored).fades fades
    · exact (quiet.acts acts).fades fades

theorem Board.Quiet.flows (quiet : before.Quiet ids) (orderly : before.Orderly)
    (flows : Board.Flows config occasion before after) (retries : RetriesLive after.log) :
    after.Quiet ids ∧ before.question ≤ after.question := by
  induction flows with
  | refl => exact ⟨quiet, Nat.le_refl _⟩
  | tail path flow ih =>
    have earlier := retries.earlier flow.log
    obtain ⟨reached, asked⟩ := ih earlier
    exact ⟨reached.flow (orderly.flows path) flow earlier, asked.trans flow.question⟩

end Quiet

end CueShell
