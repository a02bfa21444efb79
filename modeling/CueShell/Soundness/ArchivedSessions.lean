import CueShell.Proofs.SchedulerOwners
import CueShell.Soundness.SessionCounts

/-! # Archived sessions stay quiet

A session is archived only while nobody is in it and it owns no work. Later work belongs to a session that
somebody is in, or to the owner of earlier work. The exception is a retry by somebody outside of the named
sessions, who may start a job for any session. So archived sessions stay quiet as long as no job of theirs
is retried from outside.
-/

namespace CueShell

variable {env : Env} {config : Config} {state later : SchedulerState} {ids : List SessionId}
variable {isOpen : Bool}

section Archival

/-- A session that owns no work. -/
structure SchedulerState.Free (state : SchedulerState) (id : SessionId) : Prop where
  jobs : ∀ jobId entry, state.jobs.get jobId = some entry → ¬ entry.status.isTerminal →
    entry.sessionId ≠ some id
  chains : ∀ chainId chain, state.chains.get chainId = some chain → chain.sessionId ≠ some id
  scripts : ∀ scriptId script, state.pendingScripts.get scriptId = some script →
    script.sessionId ≠ some id
  crons : ∀ cronId entry, state.crons.get cronId = some entry → entry.sessionId ≠ some id

/-- What keeps a session from being archived is all of its work. -/
theorem archiveWork_none {walk : List ℕ → List ℕ} (perm : ∀ keys, (walk keys).Perm keys)
    {id : SessionId} (idle : archiveWork walk state id = none) : state.Free id := by
  have disowned {ν : Type} {table : Table ℕ ν} {owner : ν → Option SessionId}
      (nobody : ¬ ((table.keys.sort (· ≤ ·)).any fun key =>
        (table.get key).any fun entry => owner entry = some id) = true)
      (key : ℕ) (value : ν) (found : table.get key = some value) : owner value ≠ some id := by
    intro owned
    refine nobody (List.any_eq_true.mpr ⟨key, ?_, by simp [found, owned]⟩)
    rw [Finset.mem_sort, table.mem_keys]
    simp [found]
  unfold archiveWork at idle
  dsimp only at idle
  split at idle
  · cases idle
  · rename_i noJob
    split at idle
    · cases idle
    · rename_i noScript
      split at idle
      · cases idle
      · rename_i noChain
        split at idle
        · cases idle
        · rename_i noCron
          refine ⟨fun jobId entry found unfinished owned => ?_, disowned noChain, disowned noScript,
            disowned noCron⟩
          have listed : jobId ∈ walk (state.jobs.keys.sort (· ≤ ·)) := by
            rw [(perm _).mem_iff, Finset.mem_sort, state.jobs.mem_keys]
            simp [found]
          have missed := List.find?_eq_none.mp noJob jobId listed
          simp [found, owned, unfinished] at missed

end Archival

section Ids

/-- The texts of new UUIDs are new. -/
structure Env.NewIds (env : Env) (stored : List SessionId) : Prop where
  apart : ∀ first second, (env.sessionAnswers first).uuid = (env.sessionAnswers second).uuid →
    first = second
  fresh : ∀ question, "SS-" ++ (env.sessionAnswers question).uuid ∉ stored

/-- The ids that named sessions may have got up to a question. -/
def givenIds (env : Env) (stored : List SessionId) (question : ℕ) : List SessionId :=
  (List.range question).map (fun asked => "SS-" ++ (env.sessionAnswers asked).uuid) ++ stored

variable {stored : List SessionId}

theorem givenIds_subset {first last : ℕ} (le : first ≤ last) :
    givenIds env stored first ⊆ givenIds env stored last := by
  intro id member
  rcases List.mem_append.mp member with given | old
  · obtain ⟨asked, before, rfl⟩ := List.mem_map.mp given
    refine List.mem_append_left _ (List.mem_map.mpr ⟨asked, ?_, rfl⟩)
    rw [List.mem_range] at before ⊢
    omega
  · exact List.mem_append_right _ old

theorem Env.NewIds.unused (new : env.NewIds stored) (question : ℕ) :
    "SS-" ++ (env.sessionAnswers question).uuid ∉ givenIds env stored question := by
  intro member
  rcases List.mem_append.mp member with given | old
  · obtain ⟨asked, before, same⟩ := List.mem_map.mp given
    have texts := congrArg String.toList same
    simp only [String.toList_append, List.append_cancel_left_eq] at texts
    have asked_eq := new.apart asked question (String.toList_inj.mp texts)
    rw [List.mem_range] at before
    omega
  · exact new.fresh question old

end Ids

section Turns

variable {stored : List SessionId}

/-- Sessions change, and no session is archived but one that owns no work. -/
theorem Board.Quiet.marks (quiet : state.rest.Quiet ids) {sessions : SessionRegistry} {question : ℕ}
    {more : List SessionId} {workOf : SessionId → Option String}
    (sound : SessionRegistry.Sound more sessions)
    (marks : SessionRegistry.Marks workOf state.sessions sessions)
    (free : ∀ id, workOf id = none → state.Free id) :
    (SchedulerState.rest { state with sessions := sessions, question := question }).Quiet more := by
  have waits {script : PendingScriptRun} (has : state.rest.HasScript script) :
      ∃ scriptId, state.pendingScripts.get scriptId = some script := by
    rcases has with waits | ⟨current, member, -⟩
    · exact waits
    · exact absurd member List.not_mem_nil
  cases marks with
  | fades fades =>
    exact ⟨sound, fades.vacant quiet.vacant,
      fun jobId entry found unfinished => (quiet.jobs jobId entry found unfinished).fades fades,
      fun chainId chain found => (quiet.chains chainId chain found).fades fades,
      fun script has => (quiet.scripts script has).fades fades,
      fun cronId entry found => (quiet.crons cronId entry found).fades fades⟩
  | archives id idle vacant archived =>
    obtain ⟨jobs, chains, scripts, crons⟩ := free id idle
    have live {owner : Option SessionId} (was : state.sessions.Live owner) (other : owner ≠ some id) :
        sessions.Live owner := by
      intro named is marked
      rcases archived named marked with earlier | rfl
      · exact was named is earlier
      · exact other is
    refine ⟨sound, vacant quiet.vacant, ?_, ?_, ?_, ?_⟩
    · intro jobId entry found unfinished
      exact live (quiet.jobs jobId entry found unfinished) (jobs jobId entry found unfinished)
    · intro chainId chain found
      exact live (quiet.chains chainId chain found) (chains chainId chain found)
    · intro script has
      obtain ⟨scriptId, found⟩ := waits has
      exact live (quiet.scripts script has) (scripts scriptId script found)
    · intro cronId entry found
      exact live (quiet.crons cronId entry found) (crons cronId entry found)

theorem Board.Quiet.fades (quiet : state.rest.Quiet ids) {sessions : SessionRegistry}
    (question : ℕ) (sound : SessionRegistry.Sound ids sessions)
    (fades : SessionRegistry.Fades state.sessions sessions) :
    (SchedulerState.rest { state with sessions := sessions, question := question }).Quiet ids := by
  have marks : SessionRegistry.Marks (fun _ => some "") state.sessions sessions := .fades fades
  exact quiet.marks sound marks nofun

theorem Board.Quiet.mono {board : Board} {more : List SessionId} (quiet : board.Quiet ids)
    (subset : ids ⊆ more) : board.Quiet more :=
  ⟨quiet.sound.mono subset, quiet.vacant, quiet.jobs, quiet.chains, quiet.scripts, quiet.crons⟩

theorem Board.Quiet.turn (quiet : state.rest.Quiet (givenIds env stored state.question))
    (new : env.NewIds stored) (resting : state.Resting) (turn : Turn env config isOpen state later)
    (retries : RetriesLive later.log) :
    later.rest.Quiet (givenIds env stored later.question) := by
  cases turn with
  | round round =>
    obtain ⟨reached, asked⟩ := quiet.flows resting.orderly round.flows retries
    exact reached.mono (givenIds_subset asked)
  | sweep =>
    have kept := quiet.fades (state.question + 1) (quiet.sound.sweep (env.sessionAnswers state.question).now)
      (.sweep _)
    exact kept.mono (givenIds_subset (Nat.le_succ _))
  | connect clientId sessionId refresh =>
    have kept := quiet.fades (state.question + 2)
      (quiet.sound.connectSession clientId sessionId refresh (env.insertScope state.question)
        (env.sessionAnswers (state.question + 1)).now)
      (quiet.sound.connect_fades clientId sessionId refresh (env.insertScope state.question)
        (env.sessionAnswers (state.question + 1)).now)
    exact kept.mono (givenIds_subset (Nat.le_add_right _ 2))
  | disconnect clientId =>
    have kept := quiet.fades (state.question + 1) (quiet.sound.disconnectSession clientId
      (env.sessionAnswers state.question).now) (.disconnectSession clientId _)
    exact kept.mono (givenIds_subset (Nat.le_succ _))
  | session clientId command =>
    let answers := env.sessionAnswers state.question
    let operation : SessionOperation :=
      .command clientId command answers (archiveWork (env.walk (state.question + 1)) state)
    have isNew : ∀ id ∈ operation.newId, id = "SS-" ++ answers.uuid := by
      intro id member
      cases command with
      | create name => exact (Option.some.inj member).symm
      | _ => cases member
    have sound := quiet.sound.apply operation fun id member =>
      isNew id member ▸ new.unused state.question
    have kept : (SchedulerState.rest { state with
        sessions := state.sessions.apply operation
        question := state.question + 2 }).Quiet _ :=
      quiet.marks sound (quiet.sound.command_marks _ clientId command) fun id idle =>
        archiveWork_none (env.walk_perm _) idle
    refine kept.mono fun id member => ?_
    rcases List.mem_append.mp member with created | given
    · have early : state.question < state.question + 2 := by omega
      refine List.mem_append_left _ (List.mem_map.mpr ⟨state.question, List.mem_range.mpr early, ?_⟩)
      exact (isNew id (Option.mem_toList.mp created)).symm
    · exact givenIds_subset (Nat.le_add_right _ 2) given

theorem Board.Quiet.turns (quiet : state.rest.Quiet (givenIds env stored state.question))
    (new : env.NewIds stored) (resting : state.Resting) (turns : Turns env config isOpen state later)
    (retries : RetriesLive later.log) :
    later.rest.Quiet (givenIds env stored later.question) := by
  induction turns with
  | refl => exact quiet
  | tail path turn ih =>
    exact (ih (retries.earlier turn.log)).turn new (resting.turns path) turn retries

end Turns

section Runs

/-- What shutdown ends is quiet, too. -/
theorem Board.Quiet.halts (quiet : state.rest.Quiet ids) (halts : Halts state later) :
    later.rest.Quiet ids := by
  have sessions : later.rest.sessions = state.rest.sessions := halts.sessions
  refine ⟨?_, ?_, ?_, ?_, ?_, ?_⟩
  · rw [sessions]
    exact quiet.sound
  · rw [sessions]
    exact quiet.vacant
  · intro jobId entry found unfinished
    obtain ⟨earlier, known, same, ended⟩ := halts.jobs jobId entry found
    rw [sessions, same]
    exact quiet.jobs jobId earlier known fun past => unfinished (ended past)
  · intro chainId chain found
    obtain ⟨earlier, known, same⟩ := halts.chains chainId chain found
    rw [sessions, same]
    exact quiet.chains chainId earlier known
  · intro script has
    rw [sessions]
    rcases has with ⟨scriptId, found⟩ | ⟨current, member, -⟩
    · exact quiet.scripts script (.inl ⟨scriptId, halts.scripts scriptId script found⟩)
    · exact absurd member List.not_mem_nil
  · intro cronId entry found
    rw [sessions]
    have crons : later.rest.crons = state.rest.crons := halts.crons
    rw [crons] at found
    exact quiet.crons cronId entry found

/-- Archived sessions have no client, no unfinished job, no chain, no script and no cron. -/
structure SchedulerState.ArchivesQuiet (state : SchedulerState) : Prop where
  clients : ∀ clientId id, state.namedSessionIdForClient clientId = some id →
    ¬ state.sessions.Archived id
  counts : ∀ key session named, state.sessions.sessions.get key = some session →
    session.named = some named → named.archivedAtMs.isSome → session.connectedClients = 0
  jobs : ∀ jobId entry, state.jobs.get jobId = some entry → ¬ entry.status.isTerminal →
    state.sessions.Live entry.sessionId
  chains : ∀ chainId chain, state.chains.get chainId = some chain → state.sessions.Live chain.sessionId
  scripts : ∀ scriptId script, state.pendingScripts.get scriptId = some script →
    state.sessions.Live script.sessionId
  crons : ∀ cronId entry, state.crons.get cronId = some entry → state.sessions.Live entry.sessionId

theorem Board.Quiet.archives (quiet : state.rest.Quiet ids) : state.ArchivesQuiet where
  clients clientId id is := quiet.sound.client_active quiet.vacant is
  counts key session named found is archived := by
    have marked : state.sessions.readyMark key = some named.id := by
      rw [SessionRegistry.readyMark, found, Option.bind_some, SessionState.mark, is, Option.bind_some]
      exact NamedSessionMeta.mark_eq_some.mpr ⟨rfl, archived⟩
    by_contra somebody
    have counted : session.connectedClients = state.sessions.boundClients key :=
      quiet.sound.counted.counted key session found
    rw [counted] at somebody
    obtain ⟨clientId, other, link, here⟩ :=
      (state.sessions.clientSessions.total_ne_zero_iff _).mp somebody
    obtain rfl : other = key := by simpa using here
    have unmarked : state.sessions.readyMark other = none := quiet.vacant clientId other link
    rw [unmarked] at marked
    cases marked
  jobs := quiet.jobs
  chains := quiet.chains
  scripts scriptId script found := quiet.scripts script (.inl ⟨scriptId, found⟩)
  crons := quiet.crons

theorem SessionRegistry.restore_clients {rows : List StoredSession} {before after : SessionRegistry}
    (restored : rows.foldlM restoreSession before = .ok after) :
    after.clientSessions = before.clientSessions := by
  induction rows generalizing before with
  | nil =>
    cases restored
    rfl
  | cons row rest ih =>
    rw [List.foldlM_cons] at restored
    cases first : before.restoreSession row with
    | error error =>
      rw [first] at restored
      cases restored
    | ok middle =>
      rw [first] at restored
      refine (ih restored).trans ?_
      simp only [restoreSession] at first
      split at first
      · cases first
      · rename_i allocated _
        obtain ⟨next, rfl⟩ := allocSessionIncarnation_eq allocated
        cases first
        rfl
      · rename_i allocated _
        obtain ⟨next, rfl⟩ := allocSessionIncarnation_eq allocated
        cases first
        rfl

/-- The state that was read from the database is quiet if no archived session owns a cron. -/
theorem Restored.quiet (restored : Restored state) (rows : SessionRows)
    (sessions : SessionRegistry.restoreNamedSessions rows = .ok state.sessions)
    (crons : ∀ cronId entry, state.crons.get cronId = some entry → state.sessions.Live entry.sessionId) :
    state.rest.Quiet (rows.rows.map StoredSession.id).reverse := by
  refine ⟨SessionRegistry.restore_sound sessions, ?_, ?_, ?_, ?_, crons⟩
  · intro clientId key link
    have link : state.sessions.clientSessions.get clientId = some key := link
    rw [SessionRegistry.restore_clients sessions] at link
    cases link
  · exact fun jobId entry found unfinished => absurd (restored.ended jobId entry found) unfinished
  · intro chainId chain found
    have found : state.chains.get chainId = some chain := found
    rw [restored.chains] at found
    cases found
  · rintro script (⟨scriptId, found⟩ | ⟨current, member, -⟩)
    · have found : state.pendingScripts.get scriptId = some script := found
      rw [restored.pendingScripts] at found
      cases found
    · exact absurd member List.not_mem_nil

/-- In a run in which nobody outside of the named sessions retries a job of an archived session, archived
sessions stay quiet. -/
theorem archives_stay_quiet (restored : Restored state) (rows : SessionRows)
    (sessions : SessionRegistry.restoreNamedSessions rows = .ok state.sessions)
    (crons : ∀ cronId entry, state.crons.get cronId = some entry → state.sessions.Live entry.sessionId)
    (new : env.NewIds (rows.rows.map StoredSession.id)) (isStarting : Bool) (wakes : List Wake)
    (retries : RetriesLive (SchedulerLoop.history env config state isStarting wakes).state.log) :
    (SchedulerLoop.history env config state isStarting wakes).state.ArchivesQuiet := by
  obtain ⟨middle, turns, reached⟩ : ∃ middle, Turns env config true state middle ∧ _ :=
    SchedulerLoop.history_state restored isStarting wakes
  have start : state.rest.Quiet (givenIds env (rows.rows.map StoredSession.id) state.question) :=
    (restored.quiet rows sessions crons).mono fun id member =>
      List.mem_append_right _ (List.mem_reverse.mp member)
  rcases reached with same | halts
  · rw [same] at retries ⊢
    exact (start.turns new restored.resting turns retries).archives
  · obtain ⟨events, log, -⟩ := halts.log
    have earlier : RetriesLive middle.log := retries.earlier ⟨events, log.symm⟩
    exact ((start.turns new restored.resting turns earlier).halts halts).archives

/-- A check that nobody outside of the named sessions retries a job that belongs to one. -/
def SchedulerEvent.retryOwn : SchedulerEvent → Bool
  | .command (.retry id) none jobs _ =>
      ((parseJobId id).bind jobs.get).all fun entry => entry.sessionId.isNone
  | _ => true

theorem RetriesLive.of_all {log : List SchedulerEvent} (checked : log.all SchedulerEvent.retryOwn) :
    RetriesLive log := by
  intro id jobs sessions entry noted retries _ owner is
  have passed := List.all_eq_true.mp checked _ noted
  obtain ⟨jobId, named, found⟩ := retries.named
  simp [SchedulerEvent.retryOwn, named, found, is] at passed

end Runs

section Retries

/-- A named session was archived after its job had failed, and then the daemon was restarted. -/
def archivedRow : StoredSession := ⟨"SS-x", "x", some plainScope, none, none, 0, 0, some 1⟩

def archivedRows : SessionRows := ⟨[archivedRow], by decide, by decide, by decide⟩

def archivedStart : SchedulerState :=
  { SchedulerState.new with
    nextJob := 2
    jobs := Table.empty.insert 1
      ⟨some "SS-x", "make", .failed, some 1, some plainScope, some plainScope, none, none, none, none⟩
    history := Table.empty.insert 1 .failed
    sessions := ⟨Table.empty.insert (namedSessionKey "SS-x")
      ⟨plainScope, 1, ⟨none, none⟩, 0, none, some ⟨"SS-x", "x", true, 0, 0, some 1⟩⟩, .empty, .empty, 2⟩ }

theorem archivedStart_restored : Restored archivedStart := by
  have only {jobId : JobId} {entry : JobEntry} (found : archivedStart.jobs.get jobId = some entry) :
      jobId = 1 ∧ entry.status = .failed := by
    rw [archivedStart, Table.get_insert] at found
    split at found
    · rename_i same
      cases found
      exact ⟨same, rfl⟩
    · cases found
  refine ⟨fun jobId entry found => ?_, fun jobId entry found => ?_, fun jobId => ?_, rfl, rfl, rfl, rfl,
    rfl, rfl, rfl, rfl, rfl, rfl, rfl, rfl⟩
  · rw [(only found).2]
    rfl
  · rw [(only found).1]
    decide
  · rw [archivedStart, Table.get_insert, Table.get_insert]
    split <;> rfl

theorem calm_newIds : Env.calm.NewIds (archivedRows.rows.map StoredSession.id) where
  apart first second same := by
    have digits : Nat.toDigits 10 first = Nat.toDigits 10 second := by
      simpa [Env.calm] using congrArg String.toList same
    rw [← Nat.ofDigitChars_toDigits (b := 10) (n := first) (by decide) (by decide), digits,
      Nat.ofDigitChars_toDigits (by decide) (by decide)]
  fresh question member := by
    have same : "SS-" ++ toString question = "SS-x" := List.mem_singleton.mp member
    have letters : Nat.toDigits 10 question = ['x'] := by
      simpa using congrArg String.toList same
    have digit := Nat.isDigit_of_mem_toDigits (b := 10) (n := question) (c := 'x') (by decide) (by decide)
      (by simp [letters])
    cases digit

/-- Somebody outside of the named sessions runs a job of his own and retries it. -/
theorem archives_stay_quiet_own :
    (SchedulerLoop.history Env.calm ⟨⟨[], []⟩, ⟨[]⟩, false, 10⟩ archivedStart false
      [.message (.connect 1 "a" false),
        .message (.eval 1 1 (.single (.run (.leaf (.pipeline ⟨[⟨["ls"], none⟩]⟩)) {}))),
        .message (.jobFinished 2 1), .message (.eval 1 2 (.single (.retry "J2")))]).state.ArchivesQuiet :=
  archives_stay_quiet archivedStart_restored archivedRows rfl (fun cronId entry found => by cases found)
    calm_newIds false _ (.of_all (by decide +kernel))

/-- Somebody outside of the named sessions retries the job of the archived session, and it runs for that
session. -/
theorem archived_job_retried :
    Restored archivedStart ∧
      SessionRegistry.restoreNamedSessions archivedRows = .ok archivedStart.sessions ∧
      Env.calm.NewIds (archivedRows.rows.map StoredSession.id) ∧
      ¬ (SchedulerLoop.history Env.calm ⟨⟨[], []⟩, ⟨[]⟩, false, 10⟩ archivedStart false
        [.message (.connect 1 "a" false),
          .message (.eval 1 1 (.single (.retry "J1")))]).state.ArchivesQuiet := by
  refine ⟨archivedStart_restored, rfl, calm_newIds, fun quiet => ?_⟩
  have runs : ((SchedulerLoop.history Env.calm ⟨⟨[], []⟩, ⟨[]⟩, false, 10⟩ archivedStart false
      [.message (.connect 1 "a" false),
        .message (.eval 1 1 (.single (.retry "J1")))]).state.jobs.get 2).map
          (fun entry => (entry.status, entry.sessionId)) = some (.running, some "SS-x") := by
    decide +kernel
  obtain ⟨entry, found, same⟩ := Option.map_eq_some_iff.mp runs
  obtain ⟨status, owner⟩ := Prod.mk.inj same
  refine quiet.jobs 2 entry found (by simp [status, JobStatus.isTerminal]) "SS-x" owner ?_
  refine SessionRegistry.archived_iff.mpr (.inl ⟨namedSessionKey "SS-x", ?_⟩)
  decide +kernel

end Retries

end CueShell
