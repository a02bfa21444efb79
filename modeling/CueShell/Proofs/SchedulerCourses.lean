import CueShell.Proofs.SchedulerLeaves

/-! # Every chain is on course

Between two messages nothing is due, and every chain stands where some run of it stands. A step that
enters, cancels, admits or ends a leaf moves the run of its chain and of no other; a chain that is
closed has been run to its end or was cut off.
-/

namespace CueShell

variable {target : Targets} {request : Option SpawnChainRequest} {config : Config}
variable {occasion : Occasion} {before after : Board} {jobId : JobId} {chainId : ChainId}

/-- The leaves of a chain that are still to be cancelled. -/
def Board.doomedOf (board : Board) (chainId : ChainId) : List ℕ :=
  match board.work with
  | none => []
  | some work => if work.chainId = chainId then work.doomed else []

/-- The leaves of a chain that are still to be started. -/
def Board.readyOf (board : Board) (chainId : ChainId) : List ℕ :=
  match board.work with
  | none => []
  | some work => if work.chainId = chainId then work.ready.map Prod.fst else []

/-- Nothing is due on the chain. -/
def Board.Rests (board : Board) (chainId : ChainId) : Prop :=
  ∀ work, board.work = some work → work.chainId ≠ chainId

section Duties

variable {board : Board} {work : Work}

theorem Board.doomedOf_work {doomed : List ℕ} {ready : List (ℕ × ScopeHash)}
    (due : board.work = some ⟨chainId, doomed, ready⟩) : board.doomedOf chainId = doomed := by
  simp [Board.doomedOf, due]

theorem Board.readyOf_work {doomed : List ℕ} {ready : List (ℕ × ScopeHash)}
    (due : board.work = some ⟨chainId, doomed, ready⟩) :
    board.readyOf chainId = ready.map Prod.fst := by
  simp [Board.readyOf, due]

theorem Board.Rests.duties (rests : board.Rests chainId) :
    board.doomedOf chainId = [] ∧ board.readyOf chainId = [] := by
  unfold Board.doomedOf Board.readyOf
  cases due : board.work with
  | none => exact ⟨rfl, rfl⟩
  | some work => exact ⟨if_neg (rests work due), if_neg (rests work due)⟩

theorem Board.Rests.of_none (rest : board.work = none) : board.Rests chainId :=
  fun work due => by rw [rest] at due; cases due

theorem Board.not_rests (due : board.work = some work) : ¬ board.Rests work.chainId :=
  fun rests => rests work due rfl

theorem Board.Rests.of_other {other : ChainId} (due : board.work = some work)
    (different : other ≠ work.chainId) : board.Rests other := by
  intro current same
  rw [due] at same
  cases same
  exact different.symm

end Duties

/-- A chain that leaves the table has run to its end, or was cut off. -/
structure ChainState.Completed (chain : ChainState) : Prop where
  ended : isChainTerminal chain.node chain.leafStatus
  course : chain.OnCourse [] []

/-- Every chain of processes is on course; at rest it has a leaf that has not ended. -/
structure Board.Tracked (board : Board) : Prop where
  course : ∀ chainId chain, board.chains.get chainId = some chain → chain.scopeEnabled = false →
    chain.OnCourse (board.doomedOf chainId) (board.readyOf chainId)
  open_ : ∀ chainId chain, board.chains.get chainId = some chain → board.Rests chainId →
    ¬ isChainTerminal chain.node chain.leafStatus
  closed : ∀ chainId chain, .closed chainId chain ∈ board.log → chain.scopeEnabled = false →
    chain.Completed

/-- Events of a kind are added to the log. -/
def Board.Adds (kind : SchedulerEvent → Prop) (before after : Board) : Prop :=
  ∃ events, after.log = before.log ++ events ∧ ∀ event ∈ events, kind event

section Adds

variable {kind : SchedulerEvent → Prop}

theorem Board.Adds.of_eq (log : after.log = before.log) : Board.Adds kind before after :=
  ⟨[], by rw [log, List.append_nil], fun _ member => absurd member List.not_mem_nil⟩

theorem Board.Adds.trans {first middle last : Board} (start : Board.Adds kind first middle)
    (rest : Board.Adds kind middle last) : Board.Adds kind first last := by
  obtain ⟨events, log, all⟩ := start
  obtain ⟨more, further, others⟩ := rest
  refine ⟨events ++ more, by rw [further, log, List.append_assoc], fun event member => ?_⟩
  exact (List.mem_append.mp member).elim (all event) (others event)

theorem Board.Adds.mono {other : SchedulerEvent → Prop} (adds : Board.Adds kind before after)
    (weaker : ∀ event, kind event → other event) : Board.Adds other before after := by
  obtain ⟨events, log, all⟩ := adds
  exact ⟨events, log, fun event member => weaker event (all event member)⟩

/-- An event of another kind was there before. -/
theorem Board.Adds.earlier (adds : Board.Adds kind before after) {event : SchedulerEvent}
    (member : event ∈ after.log) (other : ¬ kind event) : event ∈ before.log := by
  obtain ⟨events, log, all⟩ := adds
  rw [log] at member
  exact (List.mem_append.mp member).resolve_right fun new => other (all event new)

end Adds

/-- What moves note. -/
def SchedulerEvent.isMove : SchedulerEvent → Bool
  | .admitted _ _ _ _ | .launched _ _ _ _ _ | .entered _ _ _ | .advanced _ _ _ _ | .killRefused _
  | .replied _ _ _ => true
  | _ => false

theorem Board.finish_adds (board : Board) (jobId : JobId) (entry : JobEntry)
    (update : TerminalStateUpdate) :
    Board.Adds (·.isMove) board (board.finish jobId entry update) := by
  refine ⟨_, rfl, fun event member => ?_⟩
  obtain ⟨waiter, -, rfl⟩ := List.mem_map.mp member
  rfl

theorem Board.follow_adds (board : Board) (jobId : JobId) (endScope : Option ScopeHash) :
    Board.Adds (·.isMove) board (board.follow jobId endScope) := by
  unfold Board.follow
  split
  · exact .of_eq rfl
  · exact ⟨_, rfl, by simp [SchedulerEvent.isMove]⟩

theorem Board.Move.adds (move : Board.Move target before after) :
    Board.Adds (·.isMove) before after := by
  cases move with
  | grant => exact ⟨_, rfl, by simp [SchedulerEvent.isMove]⟩
  | launch => exact ⟨_, rfl, by simp [SchedulerEvent.isMove]⟩
  | enterLeaf => exact ⟨_, rfl, by simp [SchedulerEvent.isMove]⟩
  | parkLeaf => exact ⟨_, rfl, by simp [SchedulerEvent.isMove]⟩
  | @transform chainId chain index base ready entry update =>
    have entered : Board.Adds (·.isMove) before
        (before.enterLeaf chainId chain index ready .running entry) :=
      ⟨_, rfl, by simp [SchedulerEvent.isMove]⟩
    exact entered.trans ((Board.finish_adds ..).trans (Board.follow_adds ..))
  | finish => exact (Board.finish_adds ..).trans (Board.follow_adds ..)
  | cancelLeaf jobId entry => exact before.finish_adds jobId entry abortion
  | refuse => exact ⟨_, rfl, by simp [SchedulerEvent.isMove]⟩
  | _ => exact .of_eq rfl

/-- Events that close no chain are added. -/
def SchedulerEvent.Closes (event : SchedulerEvent) : Prop :=
  ∃ chainId chain, event = .closed chainId chain

abbrev Board.ClosesNone (before after : Board) : Prop :=
  Board.Adds (fun event => ¬ event.Closes) before after

theorem Board.ClosesNone.closed (closes : before.ClosesNone after) {chain : ChainState}
    (member : .closed chainId chain ∈ after.log) : .closed chainId chain ∈ before.log :=
  closes.earlier member fun none => none ⟨chainId, chain, rfl⟩

theorem Board.Move.closes (move : Board.Move target before after) : before.ClosesNone after := by
  refine move.adds.mono fun event isMove => ?_
  rintro ⟨chainId, chain, rfl⟩
  cases isMove

/-- The end of a leaf as the end of a leaf in a run. -/
theorem TerminalStateUpdate.leafOutcome {update : TerminalStateUpdate}
    (ended : update.status.isTerminal) (proper : update.status = .done ↔ update.exitCode = 0) :
    ∃ outcome : LeafOutcome, outcome.status = leafStatusFor update.exitCode update.status ∧
      (outcome.status = .done 0 → update.status = .done) := by
  have failed (other : update.status ≠ .done) :
      (LeafOutcome.exited update.exitCode).status = .failed update.exitCode :=
    if_neg fun zero => other (proper.mpr zero)
  cases status : update.status with
  | pending => simp [status, JobStatus.isTerminal] at ended
  | running => simp [status, JobStatus.isTerminal] at ended
  | done => exact ⟨.exited update.exitCode, if_pos (proper.mp status), fun _ => rfl⟩
  | failed =>
    have same := failed (by simp [status])
    exact ⟨.exited update.exitCode, same, fun done => by simp [same] at done⟩
  | killed =>
    have same := failed (by simp [status])
    exact ⟨.exited update.exitCode, same, fun done => by simp [same] at done⟩
  | cancelled reason => exact ⟨.cancelled, rfl, fun done => by simp [LeafOutcome.status] at done⟩

namespace Board.Tracked

/-- Chains stay as they are, and so does what is due. -/
theorem aside (tracked : before.Tracked) (chains : after.chains = before.chains)
    (work : after.work = before.work) (closes : before.ClosesNone after) : after.Tracked where
  course chainId chain active process := by
    have same := tracked.course chainId chain (chains ▸ active) process
    rw [Board.doomedOf, Board.readyOf, work]
    exact same
  open_ chainId chain active rests :=
    tracked.open_ chainId chain (chains ▸ active) fun current due => rests current (work.trans due)
  closed chainId chain member := tracked.closed chainId chain (closes.closed member)

/-- What is due changes on one chain only, and so do the chains. -/
theorem change (tracked : before.Tracked) (chainId : ChainId)
    (chains : ∀ other, other ≠ chainId → after.chains.get other = before.chains.get other)
    (first : ∀ work, before.work = some work → work.chainId = chainId)
    (second : ∀ work, after.work = some work → work.chainId = chainId)
    (course : ∀ chain, after.chains.get chainId = some chain → chain.scopeEnabled = false →
      chain.OnCourse (after.doomedOf chainId) (after.readyOf chainId))
    (open_ : ∀ chain, after.chains.get chainId = some chain → after.Rests chainId →
      ¬ isChainTerminal chain.node chain.leafStatus)
    (closed : ∀ other chain, .closed other chain ∈ after.log → .closed other chain ∈ before.log ∨
      (chain.scopeEnabled = false → chain.Completed)) : after.Tracked := by
  have restsBefore (other : ChainId) (different : other ≠ chainId) : before.Rests other :=
    fun work due same => different (same ▸ first work due)
  have restsAfter (other : ChainId) (different : other ≠ chainId) : after.Rests other :=
    fun work due same => different (same ▸ second work due)
  refine ⟨fun other chain active process => ?_, fun other chain active rests => ?_,
    fun other chain member process => ?_⟩
  · by_cases same : other = chainId
    · subst same
      exact course chain active process
    · have old := tracked.course other chain ((chains other same).symm.trans active) process
      rw [(restsBefore other same).duties.1, (restsBefore other same).duties.2] at old
      rw [(restsAfter other same).duties.1, (restsAfter other same).duties.2]
      exact old
  · by_cases same : other = chainId
    · subst same
      exact open_ chain active rests
    · exact tracked.open_ other chain ((chains other same).symm.trans active) (restsBefore other same)
  · exact (closed other chain member).elim (fun old => tracked.closed other chain old process)
      fun completed => completed process

/-- A leaf starts to run after it waited for resources. -/
theorem leaf (tracked : before.Tracked) (work : after.work = before.work)
    (closes : before.ClosesNone after)
    (chains : ∀ chainId later, after.chains.get chainId = some later → ∃ chain,
      before.chains.get chainId = some chain ∧ later.scopeEnabled = chain.scopeEnabled ∧
        (∀ doomed ready, chain.scopeEnabled = false → chain.OnCourse doomed ready →
          later.OnCourse doomed ready) ∧
        (¬ isChainTerminal chain.node chain.leafStatus → ¬ isChainTerminal later.node later.leafStatus)) :
    after.Tracked where
  course chainId later active process := by
    obtain ⟨chain, known, enabled, kept, -⟩ := chains chainId later active
    have same := tracked.course chainId chain known (enabled ▸ process)
    rw [Board.doomedOf, Board.readyOf, work]
    exact kept _ _ (enabled ▸ process) same
  open_ chainId later active rests := by
    obtain ⟨chain, known, -, -, still⟩ := chains chainId later active
    exact still (tracked.open_ chainId chain known fun current due => rests current (work.trans due))
  closed chainId chain member := tracked.closed chainId chain (closes.closed member)

end Board.Tracked

section Moves

theorem isChainTerminal_iff {node : ChainNode} {statuses : Statuses} :
    isChainTerminal node statuses = true ↔ node.Ended 0 statuses := allLeavesTerminal_iff

/-- What is due after the end of a leaf of an active chain. -/
theorem Board.follow_work (board : Board) {chain : ChainState} {index : ℕ}
    (located : board.jobToChain.get jobId = some (chainId, index))
    (active : board.chains.get chainId = some chain) (endScope : Option ScopeHash) :
    let transition := advanceChain chain.node index chain.leafStatus
    let scope := endScope.getD chain.scopeHash
    (board.follow jobId endScope).work = some ⟨chainId, transition.toCancel,
      board.work.elim [] Work.ready ++ transition.newlyReady.map (·, scope)⟩ := by
  simp only [Board.follow, Board.place, located, active, Option.bind_some, Option.map_some]

/-- Nothing follows the end of a job that belongs to no active chain. -/
theorem Board.follow_unplaced (board : Board) (endScope : Option ScopeHash)
    (nowhere : ∀ chainId index, board.jobToChain.get jobId = some (chainId, index) →
      board.chains.get chainId = none) : board.follow jobId endScope = board := by
  cases located : board.jobToChain.get jobId with
  | none => simp only [Board.follow, Board.place, located, Option.bind_none]
  | some place =>
    simp only [Board.follow, Board.place, located, nowhere place.1 place.2 located, Option.bind_some,
      Option.map_none]

theorem Board.setLeaf_unplaced (board : Board) (status : LeafStatus)
    (nowhere : ∀ chainId index, board.jobToChain.get jobId = some (chainId, index) →
      board.chains.get chainId = none) :
    board.setLeaf (board.jobToChain.get jobId) status = board.chains := by
  cases located : board.jobToChain.get jobId with
  | none => rfl
  | some place => exact Table.modify_absent _ _ (nowhere place.1 place.2 located)

/-- A job belongs to a leaf of an active chain, or to none. -/
theorem Board.placed_or (board : Board) (jobId : JobId) :
    (∃ chainId index chain, board.jobToChain.get jobId = some (chainId, index) ∧
      board.chains.get chainId = some chain) ∨
    ∀ chainId index, board.jobToChain.get jobId = some (chainId, index) →
      board.chains.get chainId = none := by
  cases located : board.jobToChain.get jobId with
  | none => exact .inr nofun
  | some place =>
    cases active : board.chains.get place.1 with
    | none =>
      refine .inr fun chainId index same => ?_
      cases same
      exact active
    | some chain => exact .inl ⟨place.1, place.2, chain, rfl, active⟩

/-- The chain of a leaf after the leaf has changed. -/
theorem Board.setLeaf_placed (board : Board) {chain : ChainState} {index : ℕ} (status : LeafStatus)
    (located : board.jobToChain.get jobId = some (chainId, index))
    (active : board.chains.get chainId = some chain) :
    (board.setLeaf (board.jobToChain.get jobId) status).get chainId = some (chain.setLeaf index status) ∧
      ∀ other, other ≠ chainId →
        (board.setLeaf (board.jobToChain.get jobId) status).get other = board.chains.get other := by
  rw [located]
  refine ⟨?_, fun other different => ?_⟩
  · exact (Table.get_modify ..).trans ((if_pos rfl).trans (by rw [active, Option.map_some]))
  · exact (Table.get_modify ..).trans (if_neg different)

/-- The end of a job moves the run of its chain. -/
theorem Board.Tracked.finish (tracked : before.Tracked) (paired : before.Paired none)
    {entry : JobEntry} {update : TerminalStateUpdate} (found : before.jobs.get jobId = some entry)
    (unfinished : ¬ entry.status.isTerminal) (ended : update.status.isTerminal)
    (same : ∀ work, before.work = some work → work.doomed = [] ∧
      ∃ index, before.jobToChain.get jobId = some (work.chainId, index))
    (proper : update.status = .done ↔ update.exitCode = 0)
    (early : ∀ work, before.work = some work → work.ready ≠ [] → update.status ≠ .done) :
    ((before.finish jobId entry update).follow jobId (entry.ended update).endScope).Tracked := by
  have closes : before.ClosesNone
      ((before.finish jobId entry update).follow jobId (entry.ended update).endScope) := by
    refine Board.Adds.mono ((Board.finish_adds ..).trans (Board.follow_adds ..)) fun event isMove => ?_
    rintro ⟨chainId, chain, rfl⟩
    cases isMove
  rcases before.placed_or jobId with ⟨chainId, index, chain, located, active⟩ | nowhere
  · obtain ⟨process, started, shown⟩ := paired.seat found unfinished active located
    obtain ⟨outcome, status, done⟩ := TerminalStateUpdate.leafOutcome ended proper
    obtain ⟨changed, others⟩ :=
      before.setLeaf_placed (leafStatusFor update.exitCode update.status) located active
    have running : chain.leafStatus index = some .running ∨ chain.leafStatus index = some .pending :=
      (shown.active unfinished).imp And.left And.left
    have doomed : before.doomedOf chainId = [] := by
      cases due : before.work with
      | none => exact (Board.Rests.of_none due).duties.1
      | some work =>
        obtain ⟨none_doomed, position, here⟩ := same work due
        cases located.symm.trans here
        obtain ⟨_, doomed, ready⟩ := work
        rw [Board.doomedOf_work due]
        exact none_doomed
    have ready : before.readyOf chainId = (before.work.elim [] Work.ready).map Prod.fst := by
      cases due : before.work with
      | none => exact (Board.Rests.of_none due).duties.2
      | some work =>
        obtain ⟨-, position, here⟩ := same work due
        cases located.symm.trans here
        exact Board.readyOf_work due
    have course := tracked.course chainId chain active process
    rw [doomed] at course
    have later := course.finish (by simp [started]) running outcome fun waits final => by
      cases due : before.work with
      | none =>
        rw [(Board.Rests.of_none due).duties.2] at waits
        exact waits rfl
      | some work =>
        rw [ready, due] at waits
        exact early work due (fun none_ready => waits (by simp [none_ready])) (done final)
    rw [status] at later
    have work := (before.finish jobId entry update).follow_work located changed
      (entry.ended update).endScope
    refine tracked.change chainId ?_ ?_ ?_ ?_ ?_ fun other current member => .inl (closes.closed member)
    · intro other different
      rw [Board.follow_chains]
      exact others other different
    · intro current due
      obtain ⟨-, position, here⟩ := same current due
      cases located.symm.trans here
      rfl
    · intro current due
      cases work.symm.trans due
      rfl
    · intro current known _
      rw [Board.follow_chains] at known
      cases changed.symm.trans known
      rw [Board.doomedOf_work work, Board.readyOf_work work, List.map_append, List.map_map,
        Function.comp_def, List.map_id']
      rw [ready] at later
      exact later
    · exact fun current known rests => absurd rfl (rests _ work)
  · have kept := before.setLeaf_unplaced (leafStatusFor update.exitCode update.status) nowhere
    have still : ∀ chainId index, before.jobToChain.get jobId = some (chainId, index) →
        (before.finish jobId entry update).chains.get chainId = none := by
      intro chainId index located
      exact (congrArg (fun chains => chains.get chainId) kept).trans (nowhere chainId index located)
    have unmoved := (before.finish jobId entry update).follow_unplaced (entry.ended update).endScope still
    refine tracked.aside ?_ ?_ closes
    · rw [unmoved]
      exact kept
    · rw [unmoved]
      rfl

/-- A chain that is taken off the list of the doomed leaves. -/
theorem Board.Tracked.cancel (tracked : before.Tracked) {index : ℕ} {doomed : List ℕ}
    {ready : List (ℕ × ScopeHash)} (due : before.work = some ⟨chainId, index :: doomed, ready⟩)
    (left : after.work = some ⟨chainId, doomed, ready⟩)
    (chains : ∀ other, other ≠ chainId → after.chains.get other = before.chains.get other)
    (here : ∀ later, after.chains.get chainId = some later → later.scopeEnabled = false → ∃ chain,
      before.chains.get chainId = some chain ∧ chain.scopeEnabled = false ∧
        (chain.OnCourse (index :: doomed) (ready.map Prod.fst) →
          later.OnCourse doomed (ready.map Prod.fst)))
    (closes : before.ClosesNone after) : after.Tracked := by
  refine tracked.change chainId chains ?_ ?_ ?_ ?_ fun other chain member => .inl (closes.closed member)
  · intro work same
    cases due.symm.trans same
    rfl
  · intro work same
    cases left.symm.trans same
    rfl
  · intro later active process
    obtain ⟨chain, known, enabled, kept⟩ := here later active process
    have course := tracked.course chainId chain known enabled
    rw [Board.doomedOf_work due, Board.readyOf_work due] at course
    rw [Board.doomedOf_work left, Board.readyOf_work left]
    exact kept course
  · exact fun later active rests => absurd rfl (rests _ left)

/-- A leaf that is ready is entered. -/
theorem Board.Tracked.enter (tracked : before.Tracked) {index : ℕ} {base : ScopeHash}
    {ready : List (ℕ × ScopeHash)} {chain : ChainState}
    (due : before.work = some ⟨chainId, [], (index, base) :: ready⟩)
    (left : after.work = some ⟨chainId, [], ready⟩)
    (active : before.chains.get chainId = some chain) (process : chain.scopeEnabled = false)
    {status : LeafStatus} (chains : after.chains = before.chains.modify chainId fun chain =>
      chain.enter index jobId status)
    (kept : chain.OnCourse [] (index :: ready.map Prod.fst) →
      (chain.enter index jobId status).OnCourse [] (ready.map Prod.fst))
    (closes : before.ClosesNone after) : after.Tracked := by
  refine tracked.change chainId ?_ ?_ ?_ ?_ ?_ fun other chain member => .inl (closes.closed member)
  · intro other different
    rw [chains, Table.get_modify, if_neg different]
  · intro work same
    cases due.symm.trans same
    rfl
  · intro work same
    cases left.symm.trans same
    rfl
  · intro later found _
    rw [chains, Table.get_modify, if_pos rfl, active, Option.map_some] at found
    cases found
    have course := tracked.course chainId chain active process
    rw [Board.doomedOf_work due, Board.readyOf_work due] at course
    rw [Board.doomedOf_work left, Board.readyOf_work left]
    exact kept course
  · exact fun later found rests => absurd rfl (rests _ left)

/-- The leaf that is entered next has no job yet. -/
theorem Board.Tracked.idle (tracked : before.Tracked) {index : ℕ} {base : ScopeHash}
    {ready : List (ℕ × ScopeHash)} {chain : ChainState}
    (due : before.work = some ⟨chainId, [], (index, base) :: ready⟩)
    (active : before.chains.get chainId = some chain) (process : chain.scopeEnabled = false) :
    chain.OnCourse [] (index :: ready.map Prod.fst) ∧ chain.leafJobs.get index = none := by
  have course := tracked.course chainId chain active process
  rw [Board.doomedOf_work due, Board.readyOf_work due] at course
  have parked : (chain.enter index 0 .pending).OnCourse [] (ready.map Prod.fst) ∧
      chain.leafJobs.get index = none := course.park
  exact ⟨course, parked.2⟩

/-- No kill was refused, and no job that waited for resources could not be started. -/
structure Smooth (log : List SchedulerEvent) : Prop where
  killed : ∀ jobId, .killRefused jobId ∉ log
  admitted : ∀ jobId, .retryFailed jobId ∉ log

theorem Smooth.earlier {first last : List SchedulerEvent} (smooth : Smooth last)
    (part : first <+: last) : Smooth first where
  killed jobId member := smooth.killed jobId (part.subset member)
  admitted jobId member := smooth.admitted jobId (part.subset member)

/-- The tables of jobs and chains agree, and every chain is on course. -/
structure Board.Sound (board : Board) : Prop where
  paired : board.Paired none
  tracked : board.Tracked

/-- Nothing changes that chains or their jobs show. -/
theorem Board.Sound.aside (sound : before.Sound) (orderly : before.Orderly)
    (chains : after.chains = before.chains) (places : after.jobToChain = before.jobToChain)
    (nextChain : after.nextChain = before.nextChain) (work : after.work = before.work)
    (jobs : after.jobs = before.jobs) (closes : before.ClosesNone after) : after.Sound :=
  ⟨sound.paired.aside orderly.leaves chains places nextChain fun _ _ => .of_eq jobs _,
    sound.tracked.aside chains work closes⟩

/-- Something is noted about a job. -/
theorem Board.Sound.noted (sound : before.Sound) (orderly : before.Orderly) {entry later : JobEntry}
    (found : before.jobs.get jobId = some entry) (jobs : after.jobs = before.jobs.insert jobId later)
    (same : later.outcome = entry.outcome) (chains : after.chains = before.chains)
    (places : after.jobToChain = before.jobToChain) (nextChain : after.nextChain = before.nextChain)
    (work : after.work = before.work) (closes : before.ClosesNone after) : after.Sound :=
  ⟨sound.paired.aside orderly.leaves chains places nextChain fun _ _ => .of_insert jobs found same _,
    sound.tracked.aside chains work closes⟩

theorem Board.Sound.move (sound : before.Sound) (orderly : before.Orderly)
    (move : Board.Move target before after) (smooth : Smooth after.log) : after.Sound := by
  obtain ⟨paired, tracked⟩ := sound
  have closes := move.closes
  have leaves := orderly.leaves
  cases move with
  | explain changed entry reason found =>
    exact .noted ⟨paired, tracked⟩ orderly found rfl rfl rfl rfl rfl rfl closes
  | complete changed entry scope found =>
    exact .noted ⟨paired, tracked⟩ orderly found rfl rfl rfl rfl rfl rfl closes
  | grant changed entry base grants scope found =>
    exact .noted ⟨paired, tracked⟩ orderly found rfl rfl rfl rfl rfl rfl closes
  | @enterLeaf chainId chain index base ready entry due active process inside fresh status =>
    obtain ⟨course, idle⟩ := tracked.idle due active process
    have shown : LeafStatus.running = leafStatusFor (entry.exitCode.getD 0) entry.status := by
      rw [status]
      rfl
    exact ⟨paired.enterProcess orderly active process idle shown,
      tracked.enter due rfl active process rfl (fun course => course.enter.1) closes⟩
  | @parkLeaf chainId chain index ready entry pending due active process inside fresh status =>
    obtain ⟨course, idle⟩ := tracked.idle due active process
    have shown : LeafStatus.pending = leafStatusFor (entry.exitCode.getD 0) entry.status := by
      rw [status]
      rfl
    have entered : (before.enterLeaf chainId chain index ready .pending entry).Paired none :=
      paired.enterProcess orderly active process idle shown
    exact ⟨⟨entered.shows_, entered.owner, entered.transforms, entered.placed⟩,
      tracked.enter due rfl active process rfl (fun course => course.park.1) closes⟩
  | @transform chainId chain index base ready entry update due active transforms inside fresh ended =>
    let entered := before.enterLeaf chainId chain index ready .running entry
    have process : chain.scopeEnabled = false → chain.leafJobs.get index = none := by simp [transforms]
    have located : entered.jobToChain.get before.nextJob = some (chainId, index) :=
      (Table.get_insert ..).trans (if_pos rfl)
    have found : entered.chains.get chainId = some (chain.enter index before.nextJob .running) :=
      (Table.get_modify ..).trans ((if_pos rfl).trans (by rw [active, Option.map_some]))
    have seats : entered.Placed := orderly.leaves.enterLeaf orderly.places _ _ _ _ _ _
    have finished : (entered.finish before.nextJob entry update).Paired none := by
      refine (paired.enterLeaf orderly active process).setLeaf seats rfl rfl rfl rfl (.inr rfl) ?_ ?_
      · intro other later position known here
        cases located.symm.trans here
        cases found.symm.trans known
        exact (Table.get_insert ..).trans (if_pos rfl)
      · exact fun _ _ _ _ _ _ => ended
    obtain ⟨changed, others⟩ :=
      entered.setLeaf_placed (leafStatusFor update.exitCode update.status) located found
    have work := (entered.finish before.nextJob entry update).follow_work located changed
      (entry.ended update).endScope
    refine ⟨?_, ?_⟩
    · obtain ⟨log, work, eq⟩ := (entered.finish before.nextJob entry update).follow_eq before.nextJob
        (entry.ended update).endScope
      rw [eq]
      exact ⟨finished.shows_, finished.owner, finished.transforms, finished.placed⟩
    · refine tracked.change chainId ?_ ?_ ?_ ?_ ?_ fun other later member => .inl (closes.closed member)
      · intro other different
        rw [Board.follow_chains]
        exact (others other different).trans ((Table.get_modify ..).trans (if_neg different))
      · intro current same
        cases due.symm.trans same
        rfl
      · intro current same
        cases work.symm.trans same
        rfl
      · intro later known enabled
        rw [Board.follow_chains] at known
        cases changed.symm.trans known
        have enabled : chain.scopeEnabled = false := enabled
        rw [transforms] at enabled
        cases enabled
      · exact fun later known rests => absurd rfl (rests _ work)
  | finish jobId entry update found unfinished ended reason same proper early =>
    refine ⟨?_, tracked.finish paired found unfinished ended same proper early⟩
    obtain ⟨log, work, eq⟩ :=
      (before.finish jobId entry update).follow_eq jobId (entry.ended update).endScope
    have finished : (before.finish jobId entry update).Paired none := by
      refine paired.setLeaf leaves rfl rfl rfl rfl (.inl rfl) ?_ ?_
      · exact fun chainId chain index active located =>
          (paired.seat found unfinished active located).2.1
      · exact fun _ _ _ _ _ _ => ended
    rw [eq]
    exact ⟨finished.shows_, finished.owner, finished.transforms, finished.placed⟩
  | @cancelIdle chainId index doomed ready due idle =>
    refine ⟨paired.cancelIdle idle rfl rfl rfl rfl, tracked.cancel due rfl ?_ ?_ closes⟩
    · exact fun other different => (Table.get_modify ..).trans (if_neg different)
    · intro later found process
      obtain ⟨chain, known, rfl⟩ :=
        Option.map_eq_some_iff.mp (((Table.get_modify ..).trans (if_pos rfl)).symm.trans found)
      rw [known, Option.bind_some] at idle
      exact ⟨chain, known, process, fun course => course.cancel (.inr idle)⟩
  | @cancelLeaf chainId chain index doomed ready jobId entry due active started found unfinished =>
    have located := leaves chainId chain index jobId active started
    obtain ⟨process, -, shown⟩ := paired.seat found unfinished active located
    obtain ⟨changed, others⟩ := before.setLeaf_placed .cancelled located active
    have open_ : ¬ chain.leafStatus.Terminal index := by
      rcases shown.active unfinished with ⟨status, -⟩ | ⟨status, -⟩ <;>
        simp [Statuses.Terminal, status, LeafStatus.isTerminal]
    have finished : (before.finish jobId entry abortion).Paired none := by
      refine paired.setLeaf leaves rfl rfl rfl rfl (.inl rfl) ?_ ?_
      · exact fun chainId chain index active located =>
          (paired.seat found unfinished active located).2.1
      · exact fun _ _ _ _ _ _ => rfl
    refine ⟨⟨finished.shows_, finished.owner, finished.transforms, finished.placed⟩,
      tracked.cancel due rfl others ?_ closes⟩
    intro later known _
    cases changed.symm.trans known
    exact ⟨chain, active, process, fun course => course.cancel (.inl open_)⟩
  | @skip chainId chain index doomed ready jobId due active started past =>
    have shown := paired.shown active started
    have kept : Board.Paired { before with work := some ⟨chainId, doomed, ready⟩ } none :=
      ⟨paired.shows_, paired.owner, paired.transforms, paired.placed⟩
    refine ⟨kept, tracked.cancel due rfl (fun _ _ => rfl) ?_ closes⟩
    intro later known process
    cases active.symm.trans known
    exact ⟨chain, active, process, fun course => course.skip (shown.ended past)⟩
  | refuse jobId =>
    exact absurd (List.mem_append_right _ (List.mem_singleton.mpr rfl)) (smooth.killed jobId)
  | _ => exact .aside ⟨paired, tracked⟩ orderly rfl rfl rfl rfl rfl closes

end Moves

section Steps

/-- A chain with an unfinished leaf that starts to run is not complete. -/
theorem ChainState.open_of_resume {chain : ChainState} {index : ℕ}
    (open_ : ¬ isChainTerminal chain.node chain.leafStatus) :
    ¬ isChainTerminal (chain.setLeaf index .running).node (chain.setLeaf index .running).leafStatus := by
  rw [isChainTerminal_iff] at open_ ⊢
  intro ended
  refine open_ fun other covered => ?_
  have past := ended other covered
  have apart : other ≠ index := by
    rintro rfl
    rw [Statuses.Terminal, ChainState.setLeaf_self] at past
    cases past
  rw [Statuses.Terminal, ChainState.setLeaf_of_ne _ _ apart] at past
  exact past

/-- A job that waited for resources runs. -/
theorem Board.Sound.resume (sound : before.Sound) (orderly : before.Orderly) {waiting : List JobId}
    {entry : JobEntry} (scope : ScopeHash) (found : before.jobs.get jobId = some entry)
    (status : entry.status = .pending) : (before.resume jobId waiting entry scope).Sound := by
  obtain ⟨paired, tracked⟩ := sound
  have unfinished : ¬ entry.status.isTerminal := by simp [status, JobStatus.isTerminal]
  have seat {chainId : ChainId} {chain : ChainState} {index : ℕ}
      (active : before.chains.get chainId = some chain)
      (located : before.jobToChain.get jobId = some (chainId, index)) :=
    paired.seat found unfinished active located
  constructor
  · refine paired.setLeaf orderly.leaves rfl rfl rfl rfl (.inl rfl) ?_ ?_
    · exact fun chainId chain index active located => (seat active located).2.1
    · intro chainId chain index active transforms located
      rw [(seat active located).1] at transforms
      cases transforms
  · refine tracked.leaf rfl (.of_eq rfl) fun chainId later active => ?_
    obtain ⟨chain, known, change⟩ := Board.get_setLeaf active
    rcases change with ⟨index, located, rfl⟩ | ⟨-, rfl⟩
    · obtain ⟨process, started, shown⟩ := seat known located
      have pending : chain.leafStatus index = some .pending := by
        rcases shown.active unfinished with ⟨-, running⟩ | ⟨pending, -⟩
        · rw [status] at running
          cases running
        · exact pending
      exact ⟨chain, known, rfl, fun _ _ _ course => course.resume (by simp [started]) pending,
        ChainState.open_of_resume⟩
    · exact ⟨_, known, rfl, fun _ _ _ course => course, id⟩

theorem SpawnChainRequest.chainState_fresh (asked : SpawnChainRequest) : asked.chainState.Fresh :=
  ⟨rfl, fun _ => rfl⟩

/-- Nothing but one chain and what is due on it changes. -/
theorem Board.Sound.change (sound : before.Sound) {chain : ChainState} {doomed : List ℕ}
    {ready : List (ℕ × ScopeHash)} (rest : before.work = none)
    (active : before.chains.get chainId = some chain)
    (course : chain.scopeEnabled = false → chain.OnCourse [] [] → chain.OnCourse doomed (ready.map Prod.fst)) :
    Board.Sound { before with work := some ⟨chainId, doomed, ready⟩ } := by
  obtain ⟨paired, tracked⟩ := sound
  refine ⟨⟨paired.shows_, paired.owner, paired.transforms, paired.placed⟩, ?_⟩
  have due : ({ before with work := some ⟨chainId, doomed, ready⟩ } : Board).work =
      some ⟨chainId, doomed, ready⟩ := rfl
  refine tracked.change chainId (fun _ _ => rfl) ?_ ?_ ?_ ?_ fun _ _ member => .inl member
  · intro work same
    rw [rest] at same
    cases same
  · intro work same
    cases due.symm.trans same
    rfl
  · intro current found process
    cases active.symm.trans found
    have old := tracked.course chainId chain active process
    have rests : before.Rests chainId := .of_none rest
    obtain ⟨none_doomed, none_ready⟩ := rests.duties
    rw [none_doomed, none_ready] at old
    rw [Board.doomedOf_work due, Board.readyOf_work due]
    exact course process old
  · exact fun current found rests => absurd rfl (rests _ due)

/-- Nothing is due any more on the chain that was processed. -/
theorem Board.Sound.stop (sound : before.Sound) {ready : List (ℕ × ScopeHash)}
    (due : before.work = some ⟨chainId, [], ready⟩)
    (course : ∀ chain, before.chains.get chainId = some chain → ready = [] ∧
      ¬ isChainTerminal chain.node chain.leafStatus) :
    Board.Sound { before with work := none } := by
  obtain ⟨paired, tracked⟩ := sound
  refine ⟨⟨paired.shows_, paired.owner, paired.transforms, paired.placed⟩, ?_⟩
  refine tracked.change chainId (fun _ _ => rfl) ?_ nofun ?_ ?_ fun _ _ member => .inl member
  · intro work same
    cases due.symm.trans same
    rfl
  · intro chain active process
    have old := tracked.course chainId chain active process
    rw [Board.doomedOf_work due, Board.readyOf_work due, (course chain active).1] at old
    exact old
  · exact fun chain active _ => (course chain active).2

theorem Board.Sound.step (sound : before.Sound) (orderly : before.Orderly)
    (step : Board.Step target request before after) (smooth : Smooth after.log) : after.Sound := by
  have fresh (jobId : JobId) (placed : (before.jobToChain.get jobId).isSome) : jobId ≠ before.nextJob :=
    Nat.ne_of_lt (orderly.places jobId ((before.jobToChain.mem_keys jobId).mpr placed))
  cases step with
  | move change => exact sound.move orderly change smooth
  | spawn => exact sound.aside orderly rfl rfl rfl rfl rfl ⟨_, rfl, by simp [SchedulerEvent.Closes]⟩
  | enterJob asked entry =>
    refine ⟨sound.paired.aside orderly.leaves rfl rfl rfl fun jobId placed => ?_,
      sound.tracked.aside rfl rfl ⟨_, rfl, by simp [SchedulerEvent.Closes]⟩⟩
    exact .same (congrArg (Option.map JobEntry.outcome)
      ((Table.get_insert ..).trans (if_neg (fresh jobId placed))))
  | parkJob asked entry =>
    refine ⟨sound.paired.aside orderly.leaves rfl rfl rfl fun jobId placed => ?_,
      sound.tracked.aside rfl rfl ⟨_, rfl, by simp [SchedulerEvent.Closes]⟩⟩
    exact .same (congrArg (Option.map JobEntry.outcome)
      ((Table.get_insert ..).trans (if_neg (fresh jobId placed))))
  | activate asked due rest =>
    have asking : (before.request asked).Sound :=
      sound.aside orderly rfl rfl rfl rfl rfl ⟨_, rfl, by simp [SchedulerEvent.Closes]⟩
    refine ⟨asking.paired.activate asked.chainState_fresh, ?_⟩
    refine asking.tracked.change before.nextChain ?_ ?_ ?_ ?_ ?_ fun _ _ member => .inl member
    · exact fun other different => (Table.get_insert ..).trans (if_neg different)
    · intro work same
      have same : before.work = some work := same
      rw [rest] at same
      cases same
    · rintro work ⟨⟩
      rfl
    · intro chain active _
      cases active.symm.trans ((Table.get_insert ..).trans (if_pos rfl))
      have launched : asked.chainState.OnCourse [] (initiallyReady asked.chainState.node) :=
        .follows _ (.launch asked.chainState_fresh)
      have due : ((before.request asked).activate asked.chainState).work = some ⟨before.nextChain, [],
          (initiallyReady asked.chainState.node).map (·, asked.chainState.scopeHash)⟩ := rfl
      rw [Board.doomedOf_work due, Board.readyOf_work due, List.map_map, Function.comp_def, List.map_id']
      exact launched
    · exact fun chain active rests => absurd rfl (rests _ rfl)
  | begin chainId chain active rest => exact sound.change rest active fun _ course => course.begin
  | @close chainId chain completed due active allowed ended =>
    refine ⟨sound.paired.close chain completed, ?_⟩
    refine sound.tracked.change chainId ?_ ?_ nofun ?_ ?_ ?_
    · exact fun other different => (Table.get_erase ..).trans (if_neg different)
    · intro work same
      cases due.symm.trans same
      rfl
    · intro later found
      cases found.symm.trans ((Table.get_erase ..).trans (if_pos rfl))
    · intro later found
      cases found.symm.trans ((Table.get_erase ..).trans (if_pos rfl))
    · intro other later member
      rcases List.mem_append.mp member with old | new
      · exact .inl old
      · cases List.mem_singleton.mp new
        refine .inr fun process => ⟨ended, ?_⟩
        have course := sound.tracked.course _ _ active process
        rw [Board.doomedOf_work due, Board.readyOf_work due] at course
        exact course
  | rest due unfinished => exact sound.stop due fun chain active => ⟨rfl, unfinished chain active⟩
  | fault jobId => exact absurd (List.mem_append_right _ (List.mem_singleton.mpr rfl)) (smooth.admitted jobId)
  | drop jobId failed => exact absurd failed (smooth.admitted jobId)
  | lost due gone => exact sound.stop due fun chain active => nomatch gone.symm.trans active
  | discard => exact sound.aside orderly rfl rfl rfl rfl rfl (.of_eq rfl)
  | rotate => exact sound.aside orderly rfl rfl rfl rfl rfl (.of_eq rfl)
  | resume jobId waiting entry pending first found status =>
    exact sound.resume orderly pending.baseScope found status

end Steps

section Flows

/-- Only a step closes a chain. -/
theorem Board.Flow.closes (flow : Board.Flow config occasion before after) :
    (∃ target request, Board.Step target request before after) ∨ before.ClosesNone after := by
  cases flow with
  | step permitted change => exact .inl ⟨_, _, change⟩
  | fail current position ended failed report reported =>
    exact .inr ⟨_, rfl, by rcases reported with rfl | rfl <;> simp [SchedulerEvent.Closes]⟩
  | reject current position report reported =>
    exact .inr ⟨_, rfl, by rcases reported with rfl | rfl <;> simp [SchedulerEvent.Closes]⟩
  | done current last report reported =>
    exact .inr ⟨_, rfl, by rcases reported with rfl | rfl <;> simp [SchedulerEvent.Closes]⟩
  | @suspend script later outer index result => exact .inr (.of_eq (Board.log_link ..))
  | unlink result => exact .inr (.of_eq (Board.log_unlink ..))
  | @resume scriptId script later result =>
    refine .inr ⟨[.itemEnded script.scriptId script.waitingIndex result 0], ?_, by simp [SchedulerEvent.Closes]⟩
    dsimp only [Board.note]
    rw [Board.log_unlink]
  | @abort scriptId script result exitCode =>
    refine .inr ⟨[.itemEnded script.scriptId script.waitingIndex result exitCode,
      .scriptFinished script.scriptId exitCode script.waitingIndex], ?_, by simp [SchedulerEvent.Closes]⟩
    dsimp only [Board.note]
    rw [Board.log_unlink]
  | crons => exact .inr (.of_eq rfl)
  | scope => exact .inr (.of_eq rfl)
  | defaults => exact .inr (.of_eq rfl)
  | prune => exact .inr (.of_eq rfl)
  | forget => exact .inr (.of_eq rfl)
  | skip => exact .inr (.of_eq rfl)
  | _ => exact .inr ⟨_, rfl, by simp [SchedulerEvent.Closes]⟩

theorem Board.Sound.flow (sound : before.Sound) (orderly : before.Orderly) (recorded : before.Recorded)
    (flow : Board.Flow config occasion before after) (smooth : Smooth after.log) : after.Sound := by
  rcases flow.closes with ⟨target, request, step⟩ | closes
  · exact sound.step orderly step smooth
  · rcases flow.kinds with ⟨target, request, step, -⟩ | ⟨removed, old, rfl⟩ | beside
    · exact sound.step orderly step smooth
    · refine ⟨sound.paired.aside orderly.leaves rfl rfl rfl fun jobId _ => ?_,
        sound.tracked.aside rfl rfl closes⟩
      cases gone : removed jobId with
      | true =>
        refine .gone ?_ (recorded jobId (old jobId gone)).2
        exact (Table.get_retain_key ..).trans (if_neg (by simp [gone]))
      | false =>
        refine .same (congrArg (Option.map JobEntry.outcome) ?_)
        exact (Table.get_retain_key ..).trans (if_pos (by simp [gone]))
    · exact sound.aside orderly beside.chains beside.jobToChain beside.nextChain beside.work
        beside.jobs closes

theorem Board.Sound.flows (sound : before.Sound) (orderly : before.Orderly) (recorded : before.Recorded)
    (flows : Board.Flows config occasion before after) (smooth : Smooth after.log) : after.Sound := by
  induction flows with
  | refl => exact sound
  | tail path flow ih =>
    exact (ih (smooth.earlier flow.log)).flow (orderly.flows path) (recorded.flows orderly path) flow smooth

variable {env : Env} {isOpen : Bool} {state later : SchedulerState}

theorem SchedulerState.Resting.sound_turns (resting : state.Resting) (sound : state.rest.Sound)
    (turns : Turns env config isOpen state later) (smooth : Smooth later.log) : later.rest.Sound := by
  induction turns with
  | refl => exact sound
  | tail path turn ih =>
    have rested := resting.turns path
    have reached := ih (smooth.earlier turn.log)
    rcases turn.kinds with ⟨occasion, round⟩ | ⟨sessions, question, rfl⟩
    · exact reached.flows rested.orderly rested.recorded round.flows smooth
    · exact reached.aside rested.orderly rfl rfl rfl rfl rfl (.of_eq rfl)

theorem Restored.sound (restored : Restored state) : state.rest.Sound := by
  have log : state.rest.log = [] := restored.log
  have none {chainId : ChainId} {chain : ChainState}
      (active : state.rest.chains.get chainId = some chain) : False := by
    have chains : state.rest.chains = .empty := restored.chains
    rw [chains] at active
    cases active
  have nowhere {jobId : JobId} {place : ChainId × ℕ}
      (located : state.rest.jobToChain.get jobId = some place) : False := by
    have places : state.rest.jobToChain = .empty := restored.jobToChain
    rw [places] at located
    cases located
  constructor
  · exact ⟨fun _ _ _ _ active => (none active).elim, fun _ _ _ _ active => (none active).elim,
      fun _ _ _ _ _ active => (none active).elim, fun _ _ _ located => (nowhere located).elim⟩
  · refine ⟨fun _ _ active => (none active).elim, fun _ _ active => (none active).elim, ?_⟩
    rw [log]
    exact fun _ _ member => absurd member List.not_mem_nil

end Flows

end CueShell
