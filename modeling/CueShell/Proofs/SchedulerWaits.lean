import CueShell.Proofs.SchedulerTurns

/-! # Clients that wait for a job

A request to be told the end of a job is noted, and answered at once or by the end of the job. Every
other change leaves the requests, the answers and the list of those who wait alone, and ends no job that
somebody waits for. So the requests are the answers and those who still wait.
-/

namespace CueShell

variable {env : Env} {config : Config} {occasion : Occasion} {before after : Board}
variable {target : Targets} {request : Option SpawnChainRequest} {isOpen : Bool}
variable {clientId : ClientId} {requestId : UInt32} {jobId : JobId}

section Events

/-- A client asks for the end of a job. -/
def SchedulerEvent.asks (clientId : ClientId) (requestId : UInt32) (jobId : JobId) :
    SchedulerEvent → Bool
  | .waits client number job => client = clientId && number = requestId && job = jobId
  | _ => false

/-- A client is told the state of a job. -/
def SchedulerEvent.tells (clientId : ClientId) (requestId : UInt32) (jobId : JobId) :
    SchedulerEvent → Bool
  | .replied client number (.ok (.jobInfo job _)) =>
      client = clientId && number = requestId && job = jobId
  | _ => false

/-- An event that has nothing to do with the clients that wait. -/
def SchedulerEvent.isAside : SchedulerEvent → Bool
  | .waits _ _ _ | .replied _ _ (.ok (.jobInfo _ _)) => false
  | _ => true

theorem SchedulerEvent.asks_aside {event : SchedulerEvent} (aside : event.isAside) :
    event.asks clientId requestId jobId = false := by
  cases event with
  | waits => cases aside
  | _ => rfl

theorem SchedulerEvent.tells_aside {event : SchedulerEvent} (aside : event.isAside) :
    event.tells clientId requestId jobId = false := by
  unfold SchedulerEvent.tells
  split
  · cases aside
  · rfl

/-- The number of times a client asked for the end of a job by a request. -/
def countAsks (clientId : ClientId) (requestId : UInt32) (jobId : JobId)
    (log : List SchedulerEvent) : ℕ :=
  log.countP (SchedulerEvent.asks clientId requestId jobId)

/-- The number of times a request was answered with the state of a job. -/
def countTells (clientId : ClientId) (requestId : UInt32) (jobId : JobId)
    (log : List SchedulerEvent) : ℕ :=
  log.countP (SchedulerEvent.tells clientId requestId jobId)

theorem countAsks_append (first second : List SchedulerEvent) :
    countAsks clientId requestId jobId (first ++ second) =
      countAsks clientId requestId jobId first + countAsks clientId requestId jobId second :=
  List.countP_append ..

theorem countTells_append (first second : List SchedulerEvent) :
    countTells clientId requestId jobId (first ++ second) =
      countTells clientId requestId jobId first + countTells clientId requestId jobId second :=
  List.countP_append ..

theorem countAsks_aside {events : List SchedulerEvent} (aside : ∀ event ∈ events, event.isAside) :
    countAsks clientId requestId jobId events = 0 :=
  List.countP_eq_zero.mpr fun event member => by simp [SchedulerEvent.asks_aside (aside event member)]

theorem countTells_aside {events : List SchedulerEvent} (aside : ∀ event ∈ events, event.isAside) :
    countTells clientId requestId jobId events = 0 :=
  List.countP_eq_zero.mpr fun event member => by simp [SchedulerEvent.tells_aside (aside event member)]

section Cons

variable (client : ClientId) (number : UInt32) (job : JobId) (events : List SchedulerEvent)

@[simp] theorem countAsks_waits :
    countAsks clientId requestId jobId (.waits client number job :: events) =
      countAsks clientId requestId jobId events +
        if client = clientId ∧ number = requestId ∧ job = jobId then 1 else 0 := by
  simp [countAsks, List.countP_cons, SchedulerEvent.asks, and_assoc]

@[simp] theorem countTells_waits :
    countTells clientId requestId jobId (.waits client number job :: events) =
      countTells clientId requestId jobId events := by
  simp [countTells, SchedulerEvent.tells]

@[simp] theorem countAsks_replied (response : Response) :
    countAsks clientId requestId jobId (.replied client number response :: events) =
      countAsks clientId requestId jobId events := by
  simp [countAsks, SchedulerEvent.asks]

@[simp] theorem countTells_replied (entry : JobEntry) :
    countTells clientId requestId jobId (.replied client number (.ok (.jobInfo job entry)) :: events) =
      countTells clientId requestId jobId events +
        if client = clientId ∧ number = requestId ∧ job = jobId then 1 else 0 := by
  simp [countTells, List.countP_cons, SchedulerEvent.tells, and_assoc]

@[simp] theorem countAsks_nil : countAsks clientId requestId jobId [] = 0 := rfl

@[simp] theorem countTells_nil : countTells clientId requestId jobId [] = 0 := rfl

end Cons

theorem countTells_le (clientId : ClientId) (requestId : UInt32) (jobId : JobId)
    {first second : List SchedulerEvent} (part : first <+: second) :
    countTells clientId requestId jobId first ≤ countTells clientId requestId jobId second :=
  part.sublist.countP_le

/-- A request is answered with the state of a job. -/
theorem countTells_ne_zero {log : List SchedulerEvent}
    (told : countTells clientId requestId jobId log ≠ 0) :
    ∃ entry, .replied clientId requestId (.ok (.jobInfo jobId entry)) ∈ log := by
  obtain ⟨event, member, tells⟩ := List.countP_pos_iff.mp (Nat.pos_of_ne_zero told)
  unfold SchedulerEvent.tells at tells
  split at tells
  · rename_i client number job entry
    obtain ⟨⟨rfl, rfl⟩, rfl⟩ : (client = clientId ∧ number = requestId) ∧ job = jobId := by
      simpa using tells
    exact ⟨entry, member⟩
  · cases tells

end Events

section Changes

/-- A job that has not ended. -/
def Board.Unfinished (board : Board) (jobId : JobId) : Prop :=
  ∃ entry, board.jobs.get jobId = some entry ∧ ¬ entry.status.isTerminal

theorem Board.Unfinished.entry (unfinished : before.Unfinished jobId) {entry : JobEntry}
    (found : before.jobs.get jobId = some entry) : ¬ entry.status.isTerminal := by
  obtain ⟨known, stored, open_⟩ := unfinished
  cases stored.symm.trans found
  exact open_

/-- How often a request stands in the list of those who wait for a job. -/
def Board.waiting (board : Board) (clientId : ClientId) (requestId : UInt32) (jobId : JobId) : ℕ :=
  ((board.jobWaiters.get jobId).getD []).count ⟨clientId, requestId⟩

/-- What a change means for the clients that wait. -/
inductive Board.Waits (before after : Board) : Prop
  | aside (events : List SchedulerEvent) (log : after.log = before.log ++ events)
      (aside : ∀ event ∈ events, event.isAside) (waiters : after.jobWaiters = before.jobWaiters)
      (open_ : ∀ jobId, before.Unfinished jobId → after.Unfinished jobId)
  | ended (jobId : JobId) (entry : JobEntry) (first last : List SchedulerEvent)
      (log : after.log = before.log ++ (first ++ before.answers jobId entry ++ last))
      (aside : ∀ event ∈ first ++ last, event.isAside)
      (waiters : after.jobWaiters = before.jobWaiters.erase jobId)
      (found : after.jobs.get jobId = some entry) (ended : entry.status.isTerminal)
      (open_ : ∀ other, other ≠ jobId → before.Unfinished other → after.Unfinished other)
  | asked (clientId : ClientId) (requestId : UInt32) (jobId : JobId)
      (log : after.log = before.log ++ [.waits clientId requestId jobId])
      (waiters : after.jobWaiters = before.jobWaiters.insert jobId
        ((before.jobWaiters.get jobId).getD [] ++ [⟨clientId, requestId⟩]))
      (jobs : after.jobs = before.jobs) (unfinished : before.Unfinished jobId)
  | told (clientId : ClientId) (requestId : UInt32) (jobId : JobId) (entry : JobEntry)
      (log : after.log = before.log ++ [.waits clientId requestId jobId,
        .replied clientId requestId (.ok (.jobInfo jobId entry))])
      (waiters : after.jobWaiters = before.jobWaiters) (jobs : after.jobs = before.jobs)
      (found : before.jobs.get jobId = some entry) (ended : entry.status.isTerminal)

/-- One entry of the table of jobs is stored. -/
theorem Board.Unfinished.insert {other changed : JobId} {entry : JobEntry}
    (unfinished : before.Unfinished other) (jobs : after.jobs = before.jobs.insert changed entry)
    (same : other = changed → ¬ entry.status.isTerminal) : after.Unfinished other := by
  by_cases here : other = changed
  · refine ⟨entry, ?_, same here⟩
    rw [jobs, Table.get_insert, if_pos here]
  · obtain ⟨known, found, open_⟩ := unfinished
    refine ⟨known, ?_, open_⟩
    rw [jobs, Table.get_insert, if_neg here]
    exact found

theorem Board.Unfinished.congr {other : JobId} (unfinished : before.Unfinished other)
    (jobs : after.jobs = before.jobs) : after.Unfinished other := by
  obtain ⟨entry, found, open_⟩ := unfinished
  exact ⟨entry, jobs ▸ found, open_⟩

theorem Board.Waits.nothing (log : after.log = before.log)
    (waiters : after.jobWaiters = before.jobWaiters) (jobs : after.jobs = before.jobs) :
    before.Waits after :=
  .aside [] (by rw [log, List.append_nil]) (by simp) waiters fun _ unfinished => unfinished.congr jobs

theorem Board.Waits.note {event : SchedulerEvent} (log : after.log = before.log ++ [event])
    (aside : event.isAside) (waiters : after.jobWaiters = before.jobWaiters)
    (jobs : after.jobs = before.jobs) : before.Waits after :=
  .aside [event] log (by simpa using aside) waiters fun _ unfinished => unfinished.congr jobs

/-- The end of a job adds to the log what its chain has to do. -/
theorem Board.follow_aside (board : Board) (jobId : JobId) (endScope : Option ScopeHash) :
    ∃ events, (board.follow jobId endScope).log = board.log ++ events ∧
      ∀ event ∈ events, event.isAside := by
  unfold Board.follow
  split
  · exact ⟨[], by simp, by simp⟩
  · exact ⟨_, rfl, by simp [SchedulerEvent.isAside]⟩

theorem Board.follow_waiters (board : Board) (jobId : JobId) (endScope : Option ScopeHash) :
    (board.follow jobId endScope).jobWaiters = board.jobWaiters := by
  obtain ⟨log, work, same⟩ := board.follow_eq jobId endScope
  rw [same]

theorem Board.Move.waits (move : Board.Move target before after) : before.Waits after := by
  cases move with
  | explain changed entry reason found =>
    refine .aside [] (List.append_nil _).symm (by simp) rfl fun other unfinished => ?_
    refine unfinished.insert rfl fun here => ?_
    have open_ : ¬ entry.status.isTerminal := unfinished.entry (here ▸ found)
    exact open_
  | complete changed entry scope found ended =>
    refine .aside [] (List.append_nil _).symm (by simp) rfl fun other unfinished => ?_
    refine unfinished.insert rfl fun here => ?_
    have open_ : ¬ entry.status.isTerminal := unfinished.entry (here ▸ found)
    exact open_
  | grant changed entry base grants scope found status =>
    refine .aside _ rfl (by simp [SchedulerEvent.isAside]) rfl fun other unfinished => ?_
    refine unfinished.insert rfl fun here => ?_
    have open_ : ¬ entry.status.isTerminal := unfinished.entry (here ▸ found)
    exact open_
  | launch => exact .note rfl rfl rfl rfl
  | enterLeaf entry due active process inside fresh =>
    refine .aside _ rfl (by simp [SchedulerEvent.isAside]) rfl fun other unfinished => ?_
    exact unfinished.insert rfl fun _ => fresh.unfinished
  | parkLeaf entry pending due active process inside fresh =>
    refine .aside _ rfl (by simp [SchedulerEvent.isAside]) rfl fun other unfinished => ?_
    exact unfinished.insert rfl fun _ => fresh.unfinished
  | @transform chainId chain index base ready entry update due active transforms inside fresh ended =>
    let entered := before.enterLeaf chainId chain index ready .running entry
    obtain ⟨events, log, aside⟩ := (entered.finish before.nextJob entry update).follow_aside
      before.nextJob (entry.ended update).endScope
    refine .ended before.nextJob (entry.ended update) [.entered chainId index (chain.leafStatus index)]
      events ?_ ?_ (Board.follow_waiters ..) ?_ ended fun other different unfinished => ?_
    · rw [log]
      simp [entered, Board.finish, Board.enterLeaf, Board.answers]
    · simpa [SchedulerEvent.isAside] using aside
    · rw [Board.follow_jobs]
      exact (Table.get_insert ..).trans (if_pos rfl)
    · have inserted : entered.Unfinished other :=
        unfinished.insert rfl fun here => absurd here different
      exact inserted.insert (Board.follow_jobs ..) fun here => absurd here different
  | finish changed entry update found unfinished ended =>
    obtain ⟨events, log, aside⟩ := (before.finish changed entry update).follow_aside changed
      (entry.ended update).endScope
    refine .ended changed (entry.ended update) [] events ?_ (by simpa using aside)
      (Board.follow_waiters ..) ?_ ended fun other different open_ => ?_
    · rw [log]
      simp [Board.finish]
    · rw [Board.follow_jobs]
      exact (Table.get_insert ..).trans (if_pos rfl)
    · exact open_.insert (Board.follow_jobs ..) fun here => absurd here different
  | cancelLeaf changed entry due active started found unfinished =>
    refine .ended changed (entry.ended abortion) [] [] (by simp [Board.finish]) (by simp) rfl
      ((Table.get_insert ..).trans (if_pos rfl)) rfl fun other different open_ => ?_
    exact open_.insert rfl fun here => absurd here different
  | refuse => exact .note rfl rfl rfl rfl
  | _ => exact .nothing rfl rfl rfl

theorem Board.Step.waits (step : Board.Step target request before after) : before.Waits after := by
  cases step with
  | move change => exact change.waits
  | spawn => exact .note rfl rfl rfl rfl
  | enterJob asked entry due fresh =>
    refine .aside _ rfl (by simp [SchedulerEvent.isAside]) rfl fun other unfinished => ?_
    exact unfinished.insert rfl fun _ => fresh.unfinished
  | parkJob asked entry pending due fresh =>
    refine .aside _ rfl (by simp [SchedulerEvent.isAside]) rfl fun other unfinished => ?_
    exact unfinished.insert rfl fun _ => fresh.unfinished
  | activate => exact .note rfl rfl rfl rfl
  | close => exact .note rfl rfl rfl rfl
  | fault => exact .note rfl rfl rfl rfl
  | resume changed waiting entry pending first found =>
    refine .aside [] (List.append_nil _).symm (by simp) rfl fun other unfinished => ?_
    exact unfinished.insert rfl fun _ => by simp [JobStatus.isTerminal]
  | _ => exact .nothing rfl rfl rfl

/-- An answer that tells the state of no job. -/
theorem SchedulerEvent.isAside_of_silent {response : Response} (silent : response.Silent) :
    (SchedulerEvent.replied clientId requestId response).isAside := by
  unfold SchedulerEvent.isAside
  split
  · rename_i same
    cases same
  · rename_i same
    cases same
    exact absurd rfl (silent _ _)
  · rfl

theorem Board.Flow.waits (flow : Board.Flow config occasion before after)
    (recorded : before.Recorded) : before.Waits after := by
  cases flow with
  | step permitted change => exact change.waits
  | wait clientId requestId jobId entry asks found unfinished =>
    exact .asked clientId requestId jobId rfl rfl rfl ⟨entry, found, unfinished⟩
  | answer clientId requestId jobId entry asks found ended =>
    exact .told clientId requestId jobId entry rfl rfl rfl found ended
  | reply clientId requestId response asks silent =>
    exact .note rfl (SchedulerEvent.isAside_of_silent silent) rfl rfl
  | prune removed old =>
    refine .aside [] (List.append_nil _).symm (by simp) rfl fun other unfinished => ?_
    obtain ⟨entry, found, open_⟩ := unfinished
    refine ⟨entry, ?_, open_⟩
    dsimp only
    rw [Table.get_retain_key, if_pos, found]
    by_contra gone
    obtain ⟨status, row, -⟩ := old other (by simpa using gone)
    exact open_ ((recorded other ((before.history.mem_keys other).mpr (by simp [row]))).2 entry found)
  | command => exact .note rfl rfl rfl rfl
  | unsaved => exact .note rfl rfl rfl rfl
  | start => exact .note rfl rfl rfl rfl
  | submit => exact .note rfl rfl rfl rfl
  | pass => exact .note rfl rfl rfl rfl
  | fail current position ended failed report reported =>
    refine .aside _ rfl ?_ rfl fun _ unfinished => unfinished
    rcases reported with rfl | rfl <;> simp [SchedulerEvent.isAside]
  | reject current position report reported =>
    refine .aside _ rfl ?_ rfl fun _ unfinished => unfinished
    rcases reported with rfl | rfl <;> simp [SchedulerEvent.isAside]
  | done current last report reported =>
    refine .aside _ rfl ?_ rfl fun _ unfinished => unfinished
    rcases reported with rfl | rfl <;> simp [SchedulerEvent.isAside]
  | @suspend script later outer index result =>
    cases result <;> exact .nothing rfl rfl rfl
  | unlink result =>
    cases result <;> exact .nothing rfl rfl rfl
  | @resume scriptId script later result =>
    cases result <;> exact .note rfl rfl rfl rfl
  | @abort scriptId script result exitCode =>
    refine .aside [.itemEnded script.scriptId script.waitingIndex result exitCode,
      .scriptFinished script.scriptId exitCode script.waitingIndex] ?_
      (by simp [SchedulerEvent.isAside]) ?_ ?_
    · cases result <;> rfl
    · cases result <;> rfl
    · cases result <;> exact fun _ unfinished => unfinished
  | stop => exact .note rfl rfl rfl rfl
  | report => exact .note rfl rfl rfl rfl
  | _ => exact .nothing rfl rfl rfl

end Changes

section Invariant

/-- What a client was told is how the job ended. -/
structure Board.Final (board : Board) (jobId : JobId) (entry : JobEntry) : Prop where
  ended : entry.status.isTerminal
  known : jobId < board.nextJob
  same : ∀ known, board.jobs.get jobId = some known →
    known.status = entry.status ∧ known.exitCode = entry.exitCode

/-- Every request has been answered, or its client waits for a job that has not ended. -/
structure Board.Waiting (board : Board) : Prop where
  open_ : ∀ jobId ∈ board.jobWaiters.keys, board.Unfinished jobId
  counted : ∀ clientId requestId jobId, countAsks clientId requestId jobId board.log =
    countTells clientId requestId jobId board.log + board.waiting clientId requestId jobId
  ordered : ∀ clientId requestId jobId part, part <+: board.log →
    countTells clientId requestId jobId part ≤ countAsks clientId requestId jobId part
  told : ∀ clientId requestId jobId entry,
    .replied clientId requestId (.ok (.jobInfo jobId entry)) ∈ board.log → board.Final jobId entry

/-- The job of an old number is the one that had it before. -/
theorem Board.Flow.job_known (flow : Board.Flow config occasion before after)
    (orderly : before.Orderly) (old : jobId < before.nextJob) {later : JobEntry}
    (found : after.jobs.get jobId = some later) :
    ∃ entry, before.jobs.get jobId = some entry ∧ entry.Evolves later := by
  rcases flow.kinds with ⟨target, request, step, -⟩ | ⟨removed, -, rfl⟩ | beside
  · have present := step.jobs_keys ((after.jobs.mem_keys jobId).mpr (by simp [found]))
    have listed := (Finset.mem_insert.mp present).resolve_left (Nat.ne_of_lt old)
    obtain ⟨entry, known⟩ := Option.isSome_iff_exists.mp ((before.jobs.mem_keys jobId).mp listed)
    obtain ⟨next, reached, advances⟩ := step.job orderly known
    cases found.symm.trans reached
    exact ⟨entry, known, advances.evolves⟩
  · exact ⟨later, (Board.get_pruned found).2, .refl later⟩
  · exact ⟨later, beside.jobs ▸ found, .refl later⟩

theorem Board.Flow.nextJob_le (flow : Board.Flow config occasion before after) :
    before.nextJob ≤ after.nextJob := by
  rcases flow.kinds with ⟨target, request, step, -⟩ | ⟨removed, -, rfl⟩ | beside
  · exact step.nextJob_le
  · exact le_rfl
  · exact beside.nextJob.ge

theorem Board.Final.flow {entry : JobEntry} (final : before.Final jobId entry)
    (orderly : before.Orderly) (flow : Board.Flow config occasion before after) :
    after.Final jobId entry where
  ended := final.ended
  known := final.known.trans_le flow.nextJob_le
  same later found := by
    obtain ⟨known, stored, evolves⟩ := flow.job_known orderly final.known found
    obtain ⟨status, exitCode⟩ := final.same known stored
    obtain ⟨sameStatus, sameCode⟩ := evolves.ended (by rw [status]; exact final.ended)
    exact ⟨sameStatus.trans status, sameCode.trans exitCode⟩

theorem Board.Orderly.final (orderly : after.Orderly) {entry : JobEntry}
    (found : after.jobs.get jobId = some entry) (ended : entry.status.isTerminal) :
    after.Final jobId entry where
  ended := ended
  known := orderly.jobs jobId ((after.jobs.mem_keys jobId).mpr (by simp [found]))
  same known stored := by
    cases found.symm.trans stored
    exact ⟨rfl, rfl⟩

/-- The end of a job answers each of those who wait for it once. -/
theorem Board.countTells_answers (board : Board) (ended : JobId) (entry : JobEntry) :
    countTells clientId requestId jobId (board.answers ended entry) =
      if jobId = ended then board.waiting clientId requestId ended else 0 := by
  unfold countTells Board.answers Board.waiting
  rw [List.countP_map]
  split
  · rename_i same
    subst same
    refine List.countP_congr fun waiter _ => ?_
    obtain ⟨client, number⟩ := waiter
    simp [SchedulerEvent.tells]
  · rename_i different
    refine List.countP_eq_zero.mpr fun waiter _ => ?_
    simp [SchedulerEvent.tells, Ne.symm different]

theorem Board.countAsks_answers (board : Board) (ended : JobId) (entry : JobEntry) :
    countAsks clientId requestId jobId (board.answers ended entry) = 0 := by
  refine List.countP_eq_zero.mpr fun event member => ?_
  obtain ⟨waiter, -, rfl⟩ := List.mem_map.mp member
  simp [SchedulerEvent.asks]

/-- An event of the log of a change is old or new. -/
theorem mem_log_append {log events : List SchedulerEvent} {event : SchedulerEvent}
    (same : after.log = log ++ events) (member : event ∈ after.log) : event ∈ log ∨ event ∈ events :=
  List.mem_append.mp (same ▸ member)

/-- What is added to the log answers no more than the clients that wait and that ask. -/
theorem Board.Waiting.ordered_append (waiting : before.Waiting) {events : List SchedulerEvent}
    (log : after.log = before.log ++ events)
    (few : ∀ clientId requestId jobId rest, rest <+: events →
      countTells clientId requestId jobId rest ≤
        before.waiting clientId requestId jobId + countAsks clientId requestId jobId rest)
    (clientId : ClientId) (requestId : UInt32) (jobId : JobId) (part : List SchedulerEvent)
    (isPrefix : part <+: after.log) :
    countTells clientId requestId jobId part ≤ countAsks clientId requestId jobId part := by
  rw [log] at isPrefix
  obtain ⟨tail, same⟩ := isPrefix
  rcases List.append_eq_append_iff.mp same with ⟨rest, old, -⟩ | ⟨rest, rfl, new⟩
  · exact waiting.ordered clientId requestId jobId part ⟨rest, old.symm⟩
  · have bound := few clientId requestId jobId rest ⟨tail, new.symm⟩
    have counted := waiting.counted clientId requestId jobId
    rw [countTells_append, countAsks_append]
    omega

theorem Board.Waiting.flow (waiting : before.Waiting) (orderly : before.Orderly)
    (recorded : before.Recorded) (flow : Board.Flow config occasion before after) : after.Waiting := by
  have old (clientId : ClientId) (requestId : UInt32) (jobId : JobId) (entry : JobEntry)
      (member : .replied clientId requestId (.ok (.jobInfo jobId entry)) ∈ before.log) :
      after.Final jobId entry :=
    (waiting.told clientId requestId jobId entry member).flow orderly flow
  cases flow.waits recorded with
  | aside events log aside waiters open_ =>
    have none (clientId : ClientId) (requestId : UInt32) (jobId : JobId)
        {rest : List SchedulerEvent} (part : rest <+: events) :
        countTells clientId requestId jobId rest = 0 :=
      countTells_aside fun event member => aside event (part.subset member)
    refine ⟨?_, ?_, waiting.ordered_append log ?_, ?_⟩
    · rw [waiters]
      exact fun jobId member => open_ jobId (waiting.open_ jobId member)
    · intro clientId requestId jobId
      have counted := waiting.counted clientId requestId jobId
      rw [log, countTells_append, countAsks_append, none _ _ _ List.prefix_rfl, countAsks_aside aside,
        Board.waiting, waiters]
      exact counted
    · intro clientId requestId jobId rest part
      rw [none _ _ _ part]
      exact Nat.zero_le _
    · intro clientId requestId jobId entry member
      rcases mem_log_append log member with earlier | new
      · exact old _ _ _ _ earlier
      · cases aside _ new
  | ended ended entry first last log aside waiters found terminal open_ =>
    have told (clientId : ClientId) (requestId : UInt32) (jobId : JobId) :
        countTells clientId requestId jobId (first ++ before.answers ended entry ++ last) =
          if jobId = ended then before.waiting clientId requestId ended else 0 := by
      rw [countTells_append, countTells_append, Board.countTells_answers,
        countTells_aside fun event member => aside event (List.mem_append_left _ member),
        countTells_aside fun event member => aside event (List.mem_append_right _ member)]
      omega
    have asked (clientId : ClientId) (requestId : UInt32) (jobId : JobId) :
        countAsks clientId requestId jobId (first ++ before.answers ended entry ++ last) = 0 := by
      rw [countAsks_append, countAsks_append, Board.countAsks_answers,
        countAsks_aside fun event member => aside event (List.mem_append_left _ member),
        countAsks_aside fun event member => aside event (List.mem_append_right _ member)]
    refine ⟨?_, ?_, waiting.ordered_append log ?_, ?_⟩
    · rw [waiters]
      intro jobId member
      obtain ⟨different, listed⟩ := Finset.mem_erase.mp member
      exact open_ jobId different (waiting.open_ jobId listed)
    · intro clientId requestId jobId
      have counted := waiting.counted clientId requestId jobId
      rw [log, countTells_append, countAsks_append, told, asked, counted]
      have left : after.waiting clientId requestId jobId =
          if jobId = ended then 0 else before.waiting clientId requestId jobId := by
        rw [Board.waiting, waiters, Table.get_erase]
        split <;> rfl
      rw [left]
      split
      · rename_i same
        subst same
        omega
      · omega
    · intro clientId requestId jobId rest part
      have bound := countTells_le clientId requestId jobId part
      rw [told] at bound
      split at bound
      · rename_i same
        subst same
        omega
      · omega
    · intro clientId requestId jobId other member
      rcases mem_log_append log member with earlier | new
      · exact old _ _ _ _ earlier
      · rcases List.mem_append.mp new with front | late
        · rcases List.mem_append.mp front with early | answer
          · cases aside _ (List.mem_append_left _ early)
          · obtain ⟨waiter, -, same⟩ := List.mem_map.mp answer
            cases same
            exact (orderly.flow flow).final found terminal
        · cases aside _ (List.mem_append_right _ late)
  | asked client number job log waiters jobs unfinished =>
    refine ⟨?_, ?_, waiting.ordered_append log ?_, ?_⟩
    · rw [waiters]
      intro jobId member
      rcases Finset.mem_insert.mp member with rfl | listed
      · exact unfinished.congr jobs
      · exact (waiting.open_ jobId listed).congr jobs
    · intro clientId requestId jobId
      have counted := waiting.counted clientId requestId jobId
      have more : after.waiting clientId requestId jobId = before.waiting clientId requestId jobId +
          if client = clientId ∧ number = requestId ∧ job = jobId then 1 else 0 := by
        rw [Board.waiting, waiters, Table.get_insert]
        by_cases same : jobId = job
        · subst same
          simp [Board.waiting, List.count_append, List.count_singleton]
        · simp [Board.waiting, same, Ne.symm same]
      rw [log, countTells_append, countAsks_append, counted, more]
      simp only [countAsks_waits, countTells_waits, countAsks_nil, countTells_nil]
      omega
    · intro clientId requestId jobId rest part
      have bound := countTells_le clientId requestId jobId part
      rw [countTells_waits, countTells_nil] at bound
      omega
    · intro clientId requestId jobId entry member
      rcases mem_log_append log member with earlier | new
      · exact old _ _ _ _ earlier
      · simp at new
  | told client number job entry log waiters jobs found ended =>
    refine ⟨?_, ?_, waiting.ordered_append log ?_, ?_⟩
    · rw [waiters]
      exact fun jobId member => (waiting.open_ jobId member).congr jobs
    · intro clientId requestId jobId
      have counted := waiting.counted clientId requestId jobId
      have left : after.waiting clientId requestId jobId = before.waiting clientId requestId jobId := by
        rw [Board.waiting, waiters]
        rfl
      rw [log, countTells_append, countAsks_append, counted, left]
      simp only [countAsks_waits, countAsks_replied, countTells_waits, countTells_replied, countAsks_nil,
        countTells_nil]
      omega
    · intro clientId requestId jobId rest part
      rcases List.prefix_cons_iff.mp part with rfl | ⟨rest, rfl, isRest⟩
      · exact Nat.zero_le _
      · have bound := countTells_le clientId requestId jobId isRest
        rw [countTells_replied, countTells_nil] at bound
        rw [countTells_waits, countAsks_waits]
        omega
    · intro clientId requestId jobId other member
      rcases mem_log_append log member with earlier | new
      · exact old _ _ _ _ earlier
      · obtain ⟨⟨rfl, rfl⟩, rfl, rfl⟩ : (clientId = client ∧ requestId = number) ∧
            jobId = job ∧ other = entry := by simpa [and_assoc] using new
        exact (orderly.flow flow).final (jobs ▸ found) ended

theorem Board.Waiting.flows (waiting : before.Waiting) (orderly : before.Orderly)
    (recorded : before.Recorded) (flows : Board.Flows config occasion before after) :
    after.Waiting := by
  induction flows with
  | refl => exact waiting
  | tail path flow ih => exact ih.flow (orderly.flows path) (recorded.flows orderly path) flow

variable {state later : SchedulerState}

theorem SchedulerState.Resting.waiting_turns (resting : state.Resting) (waiting : state.rest.Waiting)
    (turns : Turns env config isOpen state later) : later.rest.Waiting := by
  induction turns with
  | refl => exact waiting
  | tail path turn ih =>
    have rested := resting.turns path
    rcases turn.kinds with ⟨occasion, round⟩ | ⟨sessions, question, rfl⟩
    · exact ih.flows rested.orderly rested.recorded round.flows
    · refine ⟨ih.open_, ih.counted, ih.ordered, fun clientId requestId jobId entry member => ?_⟩
      obtain ⟨ended, known, same⟩ := ih.told clientId requestId jobId entry member
      exact ⟨ended, known, same⟩

theorem Restored.waiting (restored : Restored state) : state.rest.Waiting := by
  have log : state.rest.log = [] := restored.log
  have waiters : state.rest.jobWaiters = .empty := restored.jobWaiters
  refine ⟨?_, ?_, ?_, ?_⟩
  · rw [waiters]
    exact fun jobId member => absurd member (Finset.notMem_empty jobId)
  · intro clientId requestId jobId
    rw [Board.waiting, log, waiters]
    rfl
  · intro clientId requestId jobId part isPrefix
    rw [log, List.prefix_nil] at isPrefix
    rw [isPrefix]
    exact le_rfl
  · rw [log]
    exact fun clientId requestId jobId entry member => absurd member (List.not_mem_nil)

end Invariant

end CueShell
