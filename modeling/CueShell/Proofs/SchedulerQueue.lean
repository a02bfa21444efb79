import CueShell.Proofs.SchedulerWaits

/-! # Jobs that wait for resources

The queue of waiting jobs, the table of what they wait for and the jobs that are pending are the same
jobs at all times, and only a job that has not ended holds resources. Both are kept by every step,
whatever the resource registry, the process manager and the database answer.
-/

namespace CueShell

variable {target : Targets} {request : Option SpawnChainRequest} {config : Config}
variable {occasion : Occasion} {before after : Board} {jobId : JobId}

/-- A job waits for resources. -/
def Board.Pending (board : Board) (jobId : JobId) : Prop :=
  ∃ entry, board.jobs.get jobId = some entry ∧ entry.status = .pending

/-- The queue is in order: it names the pending jobs once, and nobody else holds resources for long. -/
structure Board.Tended (board : Board) : Prop where
  distinct : board.pendingResourceJobs.Nodup
  parked : ∀ jobId, jobId ∈ board.pendingResource.keys ↔ jobId ∈ board.pendingResourceJobs
  pending : ∀ jobId, jobId ∈ board.pendingResourceJobs ↔ board.Pending jobId
  held : ∀ jobId ∈ board.reservations.keys, board.Unfinished jobId

namespace Board.Tended

/-- Entries keep their statuses, or belong to jobs that have ended and are dropped. -/
theorem congr (tended : before.Tended) (queue : after.pendingResourceJobs = before.pendingResourceJobs)
    (table : after.pendingResource = before.pendingResource)
    (pending : ∀ jobId, after.Pending jobId ↔ before.Pending jobId)
    (held : ∀ jobId ∈ after.reservations.keys, jobId ∈ before.reservations.keys ∨ after.Unfinished jobId)
    (going : ∀ jobId, before.Unfinished jobId → after.Unfinished jobId) : after.Tended where
  distinct := by
    rw [queue]
    exact tended.distinct
  parked := by
    rw [queue, table]
    exact tended.parked
  pending jobId := by
    rw [queue, pending jobId]
    exact tended.pending jobId
  held jobId member := (held jobId member).elim (fun old => going jobId (tended.held jobId old)) id

/-- Nothing about jobs and resources changes. -/
theorem aside (tended : before.Tended) (queue : after.pendingResourceJobs = before.pendingResourceJobs)
    (table : after.pendingResource = before.pendingResource) (jobs : after.jobs = before.jobs)
    (reservations : after.reservations = before.reservations) : after.Tended := by
  refine tended.congr queue table (fun jobId => ?_) (fun jobId member => ?_) (fun jobId going => ?_)
  · rw [Board.Pending, Board.Pending, jobs]
  · exact .inl (reservations ▸ member)
  · rw [Board.Unfinished, jobs]
    exact going

/-- The entry of a job is replaced by one with the same status. -/
theorem noted (tended : before.Tended) {entry later : JobEntry}
    (found : before.jobs.get jobId = some entry) (jobs : after.jobs = before.jobs.insert jobId later)
    (same : later.status = entry.status)
    (queue : after.pendingResourceJobs = before.pendingResourceJobs)
    (table : after.pendingResource = before.pendingResource)
    (reservations : after.reservations = before.reservations) : after.Tended := by
  have statuses (other : JobId) : (after.jobs.get other).map JobEntry.status =
      (before.jobs.get other).map JobEntry.status := by
    rw [jobs, Table.get_insert]
    split
    · rename_i here
      rw [here, found, Option.map_some, Option.map_some, same]
    · rfl
  have carried {first second : Board} {P : JobStatus → Prop} {other : JobId}
      (equal : (second.jobs.get other).map JobEntry.status = (first.jobs.get other).map JobEntry.status)
      (holds : ∃ entry, first.jobs.get other = some entry ∧ P entry.status) :
      ∃ entry, second.jobs.get other = some entry ∧ P entry.status := by
    obtain ⟨entry, known, status⟩ := holds
    rw [known, Option.map_some] at equal
    obtain ⟨later, stored, equal⟩ := Option.map_eq_some_iff.mp equal
    exact ⟨later, stored, equal ▸ status⟩
  refine tended.congr queue table (fun other => ⟨?_, ?_⟩) (fun other member => ?_) (fun other => ?_)
  · exact carried (P := (· = .pending)) (statuses other).symm
  · exact carried (P := (· = .pending)) (statuses other)
  · exact .inl (reservations ▸ member)
  · exact carried (P := fun status => ¬ status.isTerminal) (statuses other)

/-- Only the pending status of one job changes. -/
theorem replaced (tended : before.Tended) {entry : JobEntry}
    (jobs : after.jobs = before.jobs.insert jobId entry) (settled : entry.status ≠ .pending)
    (distinct : after.pendingResourceJobs.Nodup)
    (queue : ∀ other, other ∈ after.pendingResourceJobs ↔
      other ∈ before.pendingResourceJobs ∧ other ≠ jobId)
    (table : ∀ other, other ∈ after.pendingResource.keys ↔
      other ∈ before.pendingResource.keys ∧ other ≠ jobId)
    (held : ∀ other ∈ after.reservations.keys, other ∈ before.reservations.keys ∧
      (other = jobId → ¬ entry.status.isTerminal)) : after.Tended where
  distinct := distinct
  parked other := by rw [queue, table, tended.parked]
  pending other := by
    rw [queue, tended.pending, Board.Pending, Board.Pending, jobs, Table.get_insert]
    by_cases same : other = jobId
    · simp [same, settled]
    · simp [same]
  held other member := by
    obtain ⟨old, open_⟩ := held other member
    rw [Board.Unfinished, jobs, Table.get_insert]
    by_cases same : other = jobId
    · exact ⟨entry, if_pos same, open_ same⟩
    · rw [if_neg same]
      exact tended.held other old

/-- A job with a new number runs, or waits at the end of the queue. -/
theorem entered (tended : before.Tended) (orderly : before.Orderly) {entry : JobEntry}
    (jobs : after.jobs = before.jobs.insert before.nextJob entry) (status : entry.status = .running)
    (queue : after.pendingResourceJobs = before.pendingResourceJobs)
    (table : after.pendingResource = before.pendingResource)
    (reservations : after.reservations = before.reservations) : after.Tended := by
  have fresh : ¬ ∃ entry, before.jobs.get before.nextJob = some entry :=
    fun ⟨_, found⟩ => orderly.fresh found rfl
  have absent : before.nextJob ∉ before.pendingResourceJobs := fun member =>
    fresh ((tended.pending before.nextJob).mp member |>.imp fun _ => And.left)
  have unheld : before.nextJob ∉ before.reservations.keys := fun member =>
    fresh ((tended.held before.nextJob member).imp fun _ => And.left)
  refine tended.replaced jobs (by simp [status]) (queue ▸ tended.distinct) ?_ ?_ ?_
  · intro other
    rw [queue]
    exact ⟨fun member => ⟨member, fun same => absent (same ▸ member)⟩, And.left⟩
  · intro other
    rw [table, tended.parked]
    exact ⟨fun member => ⟨member, fun same => absent (same ▸ member)⟩, And.left⟩
  · intro other member
    rw [reservations] at member
    exact ⟨member, fun same => absurd (same ▸ member) unheld⟩

theorem parkedNew (tended : before.Tended) (orderly : before.Orderly) {entry : JobEntry}
    {admission : PendingResourceAdmission}
    (jobs : after.jobs = before.jobs.insert before.nextJob entry) (status : entry.status = .pending)
    (queue : after.pendingResourceJobs = if before.nextJob ∈ before.pendingResourceJobs then
      before.pendingResourceJobs else before.pendingResourceJobs ++ [before.nextJob])
    (table : after.pendingResource = before.pendingResource.insert before.nextJob admission)
    (reservations : after.reservations = before.reservations) : after.Tended := by
  have fresh : ¬ ∃ entry, before.jobs.get before.nextJob = some entry :=
    fun ⟨_, found⟩ => orderly.fresh found rfl
  have absent : before.nextJob ∉ before.pendingResourceJobs := fun member =>
    fresh ((tended.pending before.nextJob).mp member |>.imp fun _ => And.left)
  rw [if_neg absent] at queue
  constructor
  · rw [queue]
    exact tended.distinct.append (List.nodup_singleton _) (by simpa using absent)
  · intro other
    rw [table, queue, Table.keys_insert, Finset.mem_insert, tended.parked, List.mem_append,
      List.mem_singleton, or_comm]
  · intro other
    rw [queue, List.mem_append, List.mem_singleton, tended.pending, Board.Pending, Board.Pending, jobs,
      Table.get_insert]
    by_cases same : other = before.nextJob
    · simp [same, status]
    · simp [same]
  · intro other member
    rw [reservations] at member
    obtain ⟨known, found, open_⟩ := tended.held other member
    refine ⟨known, ?_, open_⟩
    rw [jobs, Table.get_insert, if_neg (orderly.fresh found)]
    exact found

/-- The end of a job takes it out of the queue and gives back its resources. -/
theorem finish (tended : before.Tended) {entry : JobEntry} {update : TerminalStateUpdate}
    (ended : update.status.isTerminal) (jobs : after.jobs = before.jobs.insert jobId (entry.ended update))
    (queue : after.pendingResourceJobs = before.pendingResourceJobs.filter (· ≠ jobId))
    (table : after.pendingResource = before.pendingResource.erase jobId)
    (reservations : after.reservations = before.reservations.erase jobId) : after.Tended := by
  refine tended.replaced jobs ?_ (queue ▸ tended.distinct.filter _) ?_ ?_ ?_
  · intro pending
    have status : update.status = .pending := pending
    simp [status, JobStatus.isTerminal] at ended
  · intro other
    simp [queue, List.mem_filter]
  · intro other
    rw [table, Table.keys_erase, Finset.mem_erase, and_comm]
  · intro other member
    rw [reservations, Table.keys_erase, Finset.mem_erase] at member
    exact ⟨member.2, fun same => absurd same member.1⟩

theorem move (tended : before.Tended) (orderly : before.Orderly)
    (move : Board.Move target before after) : after.Tended := by
  cases move with
  | explain changed entry reason found => exact tended.noted found rfl rfl rfl rfl rfl
  | complete changed entry scope found => exact tended.noted found rfl rfl rfl rfl rfl
  | grant changed entry base grants scope found => exact tended.noted found rfl rfl rfl rfl rfl
  | reserve changed entry grants found unfinished =>
    refine tended.congr rfl rfl (fun _ => Iff.rfl) (fun other member => ?_) (fun _ going => going)
    rcases Finset.mem_insert.mp member with rfl | old
    · exact .inr ⟨entry, found, unfinished⟩
    · exact .inl old
  | release changed =>
    refine tended.congr rfl rfl (fun _ => Iff.rfl) (fun other member => ?_) (fun _ going => going)
    exact .inl (Finset.mem_of_mem_erase member)
  | enterLeaf entry due active process inside fresh status =>
    exact tended.entered orderly rfl status rfl rfl rfl
  | parkLeaf entry pending due active process inside fresh status =>
    exact tended.parkedNew orderly rfl status rfl rfl rfl
  | @transform chainId chain index base ready entry update due active transforms inside fresh ended =>
    obtain ⟨log, work, eq⟩ := Board.follow_eq
      ((before.enterLeaf chainId chain index ready .running entry).finish before.nextJob entry update)
      before.nextJob (entry.ended update).endScope
    rw [eq]
    have jobs : (((before.enterLeaf chainId chain index ready .running entry).finish before.nextJob entry
        update).jobs) = before.jobs.insert before.nextJob (entry.ended update) := Table.insert_insert ..
    exact tended.finish ended jobs rfl rfl rfl
  | finish changed entry update found unfinished ended =>
    obtain ⟨log, work, eq⟩ := Board.follow_eq (before.finish changed entry update) changed
      (entry.ended update).endScope
    rw [eq]
    have jobs : (before.finish changed entry update).jobs =
        before.jobs.insert changed (entry.ended update) := rfl
    exact tended.finish ended jobs rfl rfl rfl
  | cancelLeaf changed entry due active started found unfinished =>
    have ended : abortion.status.isTerminal := rfl
    have jobs : (before.finish changed entry abortion).jobs =
        before.jobs.insert changed (entry.ended abortion) := rfl
    exact tended.finish ended jobs rfl rfl rfl
  | _ => exact tended.aside rfl rfl rfl rfl

theorem step (tended : before.Tended) (orderly : before.Orderly)
    (step : Board.Step target request before after) : after.Tended := by
  cases step with
  | move change => exact tended.move orderly change
  | enterJob asked entry due fresh status => exact tended.entered orderly rfl status rfl rfl rfl
  | parkJob asked entry pending due fresh status =>
    exact tended.parkedNew orderly rfl status rfl rfl rfl
  | discard changed waiting first stale =>
    have waits : changed ∈ before.pendingResourceJobs := by simp [first]
    rcases stale with absent | moved
    · have present := (before.pendingResource.mem_keys changed).mp ((tended.parked changed).mpr waits)
      simp [absent] at present
    · obtain ⟨entry, found, pending⟩ := (tended.pending changed).mp waits
      exact absurd pending (moved entry found)
  | rotate changed waiting first =>
    have moved : (waiting ++ [changed]).Perm before.pendingResourceJobs := by
      rw [first]
      exact List.perm_append_singleton changed waiting
    constructor
    · exact moved.nodup_iff.mpr tended.distinct
    · exact fun other => (tended.parked other).trans moved.mem_iff.symm
    · exact fun other => moved.mem_iff.trans (tended.pending other)
    · exact tended.held
  | resume changed waiting entry pending first found status =>
    have distinct := tended.distinct
    rw [first, List.nodup_cons] at distinct
    have jobs : (before.resume changed waiting entry pending.baseScope).jobs =
        before.jobs.insert changed { entry with
          status := .running, pendingReason := none, startScope := some pending.baseScope } := rfl
    refine tended.replaced jobs (by simp) distinct.2 ?_ ?_ ?_
    · intro other
      rw [first, List.mem_cons]
      constructor
      · exact fun member => ⟨.inr member, fun same => distinct.1 (same ▸ member)⟩
      · exact fun ⟨member, different⟩ => member.resolve_left different
    · exact fun other => Finset.mem_erase.trans and_comm
    · exact fun other member => ⟨member, fun _ => by simp [JobStatus.isTerminal]⟩
  | _ => exact tended.aside rfl rfl rfl rfl

theorem flow (tended : before.Tended) (orderly : before.Orderly) (recorded : before.Recorded)
    (flow : Board.Flow config occasion before after) : after.Tended := by
  rcases flow.kinds with ⟨target, request, step, -⟩ | ⟨removed, old, rfl⟩ | beside
  · exact tended.step orderly step
  · have kept {other : JobId} {entry : JobEntry} (found : before.jobs.get other = some entry)
        (unfinished : ¬ entry.status.isTerminal) :
        (before.pruned removed).jobs.get other = some entry := by
      have stays : removed other = false := by
        by_contra gone
        exact unfinished ((recorded other (old other (by simpa using gone))).2 entry found)
      exact (Table.get_retain_key ..).trans ((if_pos (by simp [stays])).trans found)
    refine tended.congr rfl rfl (fun other => ⟨?_, ?_⟩) (fun _ member => .inl member) ?_
    · rintro ⟨entry, found, status⟩
      exact ⟨entry, (Board.get_pruned found).2, status⟩
    · rintro ⟨entry, found, status⟩
      exact ⟨entry, kept found (by simp [status, JobStatus.isTerminal]), status⟩
    · rintro other ⟨entry, found, unfinished⟩
      exact ⟨entry, kept found unfinished, unfinished⟩
  · exact tended.aside beside.pendingResourceJobs beside.pendingResource beside.jobs beside.reservations

theorem flows (tended : before.Tended) (orderly : before.Orderly) (recorded : before.Recorded)
    (flows : Board.Flows config occasion before after) : after.Tended := by
  induction flows with
  | refl => exact tended
  | tail path flow ih => exact ih.flow (orderly.flows path) (recorded.flows orderly path) flow

end Board.Tended

variable {env : Env} {isOpen : Bool} {state later : SchedulerState}

theorem SchedulerState.Resting.tended_turns (resting : state.Resting) (tended : state.rest.Tended)
    (turns : Turns env config isOpen state later) : later.rest.Tended := by
  induction turns with
  | refl => exact tended
  | tail path turn ih =>
    have rested := resting.turns path
    rcases turn.kinds with ⟨occasion, round⟩ | ⟨sessions, question, rfl⟩
    · exact ih.flows rested.orderly rested.recorded round.flows
    · exact ih.aside rfl rfl rfl rfl

theorem Restored.tended (restored : Restored state) : state.rest.Tended := by
  have queue : state.rest.pendingResourceJobs = [] := restored.pendingResourceJobs
  have table : state.rest.pendingResource = .empty := restored.pendingResource
  have held : state.rest.reservations = .empty := restored.reservations
  constructor
  · rw [queue]
    exact List.nodup_nil
  · rw [queue, table]
    exact fun jobId => iff_of_false (Finset.notMem_empty jobId) List.not_mem_nil
  · rw [queue]
    refine fun jobId => iff_of_false List.not_mem_nil ?_
    rintro ⟨entry, found, pending⟩
    have ended := restored.ended jobId entry found
    simp [pending, JobStatus.isTerminal] at ended
  · rw [held]
    exact fun jobId member => absurd member (Finset.notMem_empty jobId)

end CueShell
