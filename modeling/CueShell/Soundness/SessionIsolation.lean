import CueShell.Model.Scheduler.Run
import CueShell.ToMathlib.Ensures

/-! # Named sessions are isolated from each other

A client of a named session that asks for a job or cron the session does not own, or that lists jobs
and crons or reads logs, learns nothing of what other sessions own and changes nothing of it: in two
states that agree on what the session owns it gets the same response.
-/

namespace CueShell

section Lists

variable {ν : Type}

/-- Selecting entries of a sorted table is sorting the selected part of it. -/
theorem sortedEntries_filter (table : Table ℕ ν) (keep : ν → Bool) :
    (sortedEntries table).filter (fun entry => keep entry.2) =
      sortedEntries (table.retain fun _ value => keep value) := by
  have keys : (table.retain fun _ value => keep value).keys.sort (· ≤ ·) =
      (table.keys.sort (· ≤ ·)).filter fun key => (table.get key).any keep := by
    have selected : ((table.keys.sort (· ≤ ·)).filter fun key => (table.get key).any keep).toFinset =
        (table.retain fun _ value => keep value).keys := by
      ext key
      simp [Table.retain]
    rw [← selected, List.toFinset_sort (· ≤ ·) ((Finset.sort_nodup ..).filter _)]
    exact (Finset.pairwise_sort ..).filter _
  rw [sortedEntries, sortedEntries, keys]
  induction table.keys.sort (· ≤ ·) with
  | nil => rfl
  | cons key rest ih =>
    rw [List.filterMap_cons, List.filter_cons]
    cases found : table.get key with
    | none => simpa using ih
    | some value =>
      cases kept : keep value with
      | true =>
        have stored : (table.retain fun _ value => keep value).get key = some value := by
          simp [found, kept, Option.filter]
        simp only [Option.map_some, Option.any_some, kept, if_true, List.filter_cons,
          List.filterMap_cons, stored, ih]
      | false => simp [kept, ih]

end Lists

/-- Two states agree on the jobs and crons a session owns. -/
structure AgreeOn (sessionId : SessionId) (first second : SchedulerState) : Prop where
  jobs : ∀ jobId entry, entry.sessionId = some sessionId →
    (first.jobs.get jobId = some entry ↔ second.jobs.get jobId = some entry)
  crons : ∀ cronId entry, entry.sessionId = some sessionId →
    (first.crons.get cronId = some entry ↔ second.crons.get cronId = some entry)

section Owned

variable {ν : Type}

theorem retain_eq_of_agree {first second : Table ℕ ν} (owned : ν → Bool)
    (agree : ∀ key value, owned value = true →
      (first.get key = some value ↔ second.get key = some value)) :
    first.retain (fun _ => owned) = second.retain fun _ => owned := by
  refine Table.ext_get fun key => Option.ext fun value => ?_
  simp only [Table.get_retain, Option.filter_eq_some_iff]
  constructor
  · rintro ⟨found, own⟩
    exact ⟨(agree key value own).mp found, own⟩
  · rintro ⟨found, own⟩
    exact ⟨(agree key value own).mpr found, own⟩

variable {sessionId : SessionId} {first second : SchedulerState}

theorem ownedJobs_eq (agree : AgreeOn sessionId first second) :
    (sortedEntries first.jobs).filter (fun entry => entry.2.sessionId = some sessionId) =
      (sortedEntries second.jobs).filter fun entry => entry.2.sessionId = some sessionId := by
  have same := retain_eq_of_agree (fun entry : JobEntry => decide (entry.sessionId = some sessionId))
    fun key entry own => agree.jobs key entry (of_decide_eq_true own)
  rw [sortedEntries_filter first.jobs fun entry => decide (entry.sessionId = some sessionId), same,
    ← sortedEntries_filter]

theorem ownedCrons_eq (agree : AgreeOn sessionId first second) :
    (sortedEntries first.crons).filter (fun entry => entry.2.sessionId = some sessionId) =
      (sortedEntries second.crons).filter fun entry => entry.2.sessionId = some sessionId := by
  have same := retain_eq_of_agree (fun entry : CronEntry => decide (entry.sessionId = some sessionId))
    fun key entry own => agree.crons key entry (of_decide_eq_true own)
  rw [sortedEntries_filter first.crons fun entry => decide (entry.sessionId = some sessionId), same,
    ← sortedEntries_filter]

end Owned

section Responses

variable {env : Env} {config : Config} {sessionId : SessionId} {first second : SchedulerState}
variable {clientId : ClientId}

theorem sortedJobListForClient_eq (agree : AgreeOn sessionId first second)
    (firstClient : first.namedSessionIdForClient clientId = some sessionId)
    (secondClient : second.namedSessionIdForClient clientId = some sessionId) :
    sortedJobListForClient first clientId = sortedJobListForClient second clientId := by
  simp only [sortedJobListForClient, firstClient, secondClient]
  exact ownedJobs_eq agree

theorem sortedCronListForClient_eq (agree : AgreeOn sessionId first second)
    (firstClient : first.namedSessionIdForClient clientId = some sessionId)
    (secondClient : second.namedSessionIdForClient clientId = some sessionId) :
    sortedCronListForClient first clientId = sortedCronListForClient second clientId := by
  simp only [sortedCronListForClient, firstClient, secondClient]
  exact congrArg (List.map fun entry => cronInfo entry.1 entry.2) (ownedCrons_eq agree)

/-- A target that the session owns, if there is one. -/
def Owns (sessionId : SessionId) (state : SchedulerState) : SessionOwnedTarget → Prop
  | .job jobId => ∃ entry, state.jobs.get jobId = some entry ∧ entry.sessionId = some sessionId
  | .cron cronId => ∃ entry, state.crons.get cronId = some entry ∧ entry.sessionId = some sessionId
  | .chain _ | .script _ => False

/-- The log of a target that the session owns, and of a text that is no target. -/
theorem formatLogOf_eq (agree : AgreeOn sessionId first second) {id : String}
    (own : ∀ target, (((parseJobId id).map SessionOwnedTarget.job).or
      ((parseCronId id).map .cron)) = some target → Owns sessionId first target) :
    formatLogOf first id = formatLogOf second id := by
  rw [formatLogOf, formatLogOf]
  cases job : parseJobId id with
  | some jobId =>
    obtain ⟨entry, found, owner⟩ := own (.job jobId) (by simp [job])
    have same := (agree.jobs jobId entry owner).mp found
    simp only [found, same]
  | none =>
    cases cron : parseCronId id with
    | some cronId =>
      obtain ⟨entry, found, owner⟩ := own (.cron cronId) (by simp [job, cron])
      have same := (agree.crons cronId entry owner).mp found
      simp only [found, same]
    | none => rfl

theorem formatLogText_eq (agree : AgreeOn sessionId first second) {id : Option String}
    (own : ∀ text ∈ id, ∀ target, (((parseJobId text).map SessionOwnedTarget.job).or
      ((parseCronId text).map .cron)) = some target → Owns sessionId first target) :
    formatLogText first id (some sessionId) = formatLogText second id (some sessionId) := by
  cases id with
  | some text => exact formatLogOf_eq agree (own text rfl)
  | none =>
    simp only [formatLogText, Option.isNone_some, Bool.false_or]
    rw [ownedJobs_eq agree, ownedCrons_eq agree]

end Responses

section Isolation

/-- Commands that list jobs and crons or read logs. -/
def SingleCommand.isListing : SingleCommand → Bool
  | .jobs | .listJobs _ | .crons | .listCrons _ | .log _ | .showLog _ _ _ => true
  | _ => false

/-- The command targets a job or cron that the session does not own, or it is a listing. -/
def Outward (sessionId : SessionId) (state : SchedulerState) (command : SingleCommand) : Prop :=
  command.isListing ∨ ∃ target, sessionOwnedTargetForCommand command = some target ∧
    (∃ id, target = .job id ∨ target = .cron id) ∧ ¬ Owns sessionId state target

variable {env : Env} {config : Config} {sessionId : SessionId} {clientId : ClientId}
variable {resume : PendingScriptRun → Sched Unit} {context : CommandExecutionContext}

/-- The answer to a command that the session may not give. -/
def deniedResponse (target : SessionOwnedTarget) : Response :=
  errorResponse "NOT_FOUND" (target.display ++ " not found")

/-- The answer to a listing. -/
def listingResponse (state : SchedulerState) (clientId : ClientId) (sessionId : SessionId) :
    SingleCommand → Response
  | .jobs => .ok (.jobList (sortedJobListForClient state clientId))
  | .listJobs limit =>
      let (jobs, page) := pageItems (sortedJobListForClient state clientId) limit
      .ok (.jobListPage jobs page)
  | .crons => .ok (.cronList (sortedCronListForClient state clientId))
  | .listCrons limit =>
      let (crons, page) := pageItems (sortedCronListForClient state clientId) limit
      .ok (.cronListPage crons page)
  | .log id => .ok (.evalText (formatLogText state id (some sessionId)))
  | .showLog id limit tailBytes =>
      match invalidTailBytesResponse "tail_bytes" tailBytes with
      | some response => response
      | none =>
          let (text, truncated) :=
            limitText (formatLogText state id (some sessionId)) limit tailBytes
          .ok (.textOutput text truncated)
  | _ => .ok .other

/-- The jobs, chains and crons are as before. -/
def Untouched (before after : SchedulerState) : Prop :=
  after.jobs = before.jobs ∧ after.chains = before.chains ∧ after.crons = before.crons

theorem handleQuery_listing {command : SingleCommand} (listing : command.isListing)
    (state : SchedulerState) :
    handleQuery env config command clientId (some sessionId) state =
      (listingResponse state clientId sessionId command, state) := by
  cases command with
  | jobs | listJobs | crons | listCrons | log => rfl
  | showLog id limit tailBytes =>
    simp only [handleQuery, listingResponse]
    cases invalidTailBytesResponse "tail_bytes" tailBytes <;> rfl
  | _ => simp [SingleCommand.isListing] at listing

/-- What a client of a session is answered to an outward command. -/
def outwardResponse (state : SchedulerState) (clientId : ClientId) (sessionId : SessionId)
    (command : SingleCommand) : Response :=
  match sessionOwnedTargetForCommand command with
  | none => listingResponse state clientId sessionId command
  | some target =>
      if targetOwner state (fun _ => none) target = some (some sessionId) then
        listingResponse state clientId sessionId command
      else deniedResponse target

/-- Only finished scripts are looked up outside the tables. -/
theorem targetOwner_finished {target : SessionOwnedTarget} {state : SchedulerState}
    (kind : ∃ id, target = .job id ∨ target = .cron id)
    (finished : ScriptId → Option (Option SessionId)) :
    targetOwner state finished target = targetOwner state (fun _ => none) target := by
  obtain ⟨id, rfl | rfl⟩ := kind <;> rfl

theorem targetOwner_eq_some_iff {target : SessionOwnedTarget} {state : SchedulerState}
    (kind : ∃ id, target = .job id ∨ target = .cron id) :
    targetOwner state (fun _ => none) target = some (some sessionId) ↔
      Owns sessionId state target := by
  obtain ⟨id, rfl | rfl⟩ := kind <;> simp [targetOwner, Owns]

/-- A listing with a target is a log, so its target is a job or a cron. -/
theorem Outward.kind {state : SchedulerState} {command : SingleCommand} {target : SessionOwnedTarget}
    (outward : Outward sessionId state command)
    (found : sessionOwnedTargetForCommand command = some target) :
    (∃ id, target = .job id ∨ target = .cron id) ∧
      (Owns sessionId state target → command.isListing) := by
  rcases outward with listing | ⟨other, there, kind, foreign⟩
  · refine ⟨?_, fun _ => listing⟩
    have pick : ∀ id : String, ((parseJobId id).map SessionOwnedTarget.job).or
        ((parseCronId id).map .cron) = some target → ∃ id, target = .job id ∨ target = .cron id := by
      intro id chosen
      rcases Option.or_eq_some_iff.mp chosen with job | ⟨-, cron⟩
      · obtain ⟨jobId, -, rfl⟩ := Option.map_eq_some_iff.mp job
        exact ⟨jobId, .inl rfl⟩
      · obtain ⟨cronId, -, rfl⟩ := Option.map_eq_some_iff.mp cron
        exact ⟨cronId, .inr rfl⟩
    cases command with
    | log id =>
      cases id with
      | none => cases found
      | some id => exact pick id found
    | showLog id limit tailBytes =>
      cases id with
      | none => cases found
      | some id => exact pick id found
    | jobs | listJobs | crons | listCrons => cases found
    | _ => simp [SingleCommand.isListing] at listing
  · obtain rfl : other = target := Option.some.inj (there.symm.trans found)
    exact ⟨kind, fun own => absurd own foreign⟩

theorem dispatchCommand_listing {command : SingleCommand} (listing : command.isListing) :
    dispatchCommand env config resume command clientId context (some sessionId) =
      handleQuery env config command clientId (some sessionId) := by
  cases command <;> first | rfl | simp [SingleCommand.isListing] at listing

theorem authorize_spec (env : Env) (state : SchedulerState) {target : SessionOwnedTarget}
    (kind : ∃ id, target = .job id ∨ target = .cron id) :
    Ensures (authorizeSessionOwnedTarget env (some sessionId) target) state fun granted after =>
      granted = decide (targetOwner state (fun _ => none) target = some (some sessionId)) ∧
        after = { state with question := state.question + 1 } := by
  obtain ⟨id, rfl | rfl⟩ := kind
  · exact ⟨rfl, rfl⟩
  · exact ⟨rfl, rfl⟩

theorem handleCommandWithScope_outward (env : Env) (config : Config)
    (resume : PendingScriptRun → Sched Unit) (clientId : ClientId)
    (context : CommandExecutionContext) {state : SchedulerState} {command : SingleCommand}
    (requester : context.sessionId.or (state.namedSessionIdForClient clientId) = some sessionId)
    (outward : Outward sessionId state command) :
    Ensures (handleCommandWithScope env config resume command clientId context) state
      fun response after => response = outwardResponse state clientId sessionId command ∧
        Untouched state after := by
  have lists : ∀ later : SchedulerState, command.isListing → later.jobs = state.jobs →
      later.crons = state.crons → later.sessions = state.sessions → later.chains = state.chains →
      Ensures (dispatchCommand env config resume command clientId context (some sessionId)) later
        fun response after => response = listingResponse state clientId sessionId command ∧
          Untouched state after := by
    intro later listing jobs crons sessions chains
    rw [dispatchCommand_listing listing, Ensures, handleQuery_listing listing]
    refine ⟨?_, jobs, chains, crons⟩
    have client : later.namedSessionIdForClient clientId = state.namedSessionIdForClient clientId := by
      rw [SchedulerState.namedSessionIdForClient, sessions, SchedulerState.namedSessionIdForClient]
    cases command <;> simp only [listingResponse, sortedJobListForClient, sortedCronListForClient,
      sortedJobList, sortedCronList, formatLogText, formatLogOf, jobs, crons, client]
  let recorded : SchedulerState :=
    { state with log := state.log ++ [.command command (some sessionId) state.jobs state.sessions] }
  unfold handleCommandWithScope
  refine Ensures.get ?_
  simp only [requester]
  refine Ensures.modify ?_
  cases found : sessionOwnedTargetForCommand command with
  | none =>
    have listing : command.isListing := by
      rcases outward with listing | ⟨target, there, -⟩
      · exact listing
      · rw [found] at there
        cases there
    have listed := lists recorded listing rfl rfl rfl rfl
    rw [outwardResponse, found]
    exact listed
  | some target =>
    obtain ⟨kind, owned⟩ := outward.kind found
    have same : targetOwner recorded (fun _ => none) target =
        targetOwner state (fun _ => none) target := by
      obtain ⟨id, rfl | rfl⟩ := kind <;> rfl
    rw [outwardResponse, found]
    by_cases own : targetOwner state (fun _ => none) target = some (some sessionId)
    · have listing := owned ((targetOwner_eq_some_iff kind).mp own)
      simp only [own, if_true]
      refine Ensures.bind (authorize_spec env recorded kind) ?_
      rintro granted after ⟨rfl, rfl⟩
      rw [same, decide_eq_true own]
      exact lists _ listing rfl rfl rfl rfl
    · simp only [own, if_false]
      refine Ensures.bind (authorize_spec env recorded kind) ?_
      rintro granted after ⟨rfl, rfl⟩
      rw [same, decide_eq_false own]
      exact ⟨rfl, rfl, rfl, rfl⟩

/-- A `:wait` for a job the session does not own is refused like one for a job that is not there. -/
theorem handleWaitCommand_outward (env : Env) (requestId : UInt32) {state : SchedulerState} {id : String}
    (client : state.namedSessionIdForClient clientId = some sessionId)
    (outward : Outward sessionId state (.wait id)) :
    Ensures (handleWaitCommand env id clientId requestId) state fun response after =>
      response = some (outwardResponse state clientId sessionId (.wait id)) ∧
        Untouched state after := by
  rcases outward with listing | ⟨target, found, kind, foreign⟩
  · cases listing
  · obtain ⟨jobId, parsed, rfl⟩ := Option.map_eq_some_iff.mp found
    have alien : ¬ targetOwner state (fun _ => none) (.job jobId) = some (some sessionId) :=
      fun own => foreign ((targetOwner_eq_some_iff kind).mp own)
    rw [outwardResponse, found]
    simp only [alien, if_false]
    unfold handleWaitCommand
    simp only [parsed]
    refine Ensures.get ?_
    rw [client]
    refine Ensures.bind (authorize_spec env state kind) ?_
    rintro granted after ⟨rfl, rfl⟩
    rw [decide_eq_false alien]
    exact ⟨rfl, rfl, rfl, rfl⟩

theorem evalCommand_outward (env : Env) (config : Config) (requestId : UInt32)
    {state : SchedulerState} {command : SingleCommand}
    (client : state.namedSessionIdForClient clientId = some sessionId)
    (outward : Outward sessionId state command) :
    Ensures (evalCommand env config (.single command) clientId requestId) state
      fun response after => response = some (outwardResponse state clientId sessionId command) ∧
        Untouched state after := by
  have others : Ensures (do return some (← handleCommand env config command clientId)) state
      fun response after => response = some (outwardResponse state clientId sessionId command) ∧
        Untouched state after := by
    have done := handleCommandWithScope_outward env config
      (continuePendingScript env config (state.openItems + 1)) clientId {} client outward
    exact ⟨congrArg some done.1, done.2⟩
  cases command with
  | wait id => exact handleWaitCommand_outward env requestId client outward
  | _ => exact others

theorem outwardResponse_eq {first second : SchedulerState} {command : SingleCommand}
    (agree : AgreeOn sessionId first second)
    (firstClient : first.namedSessionIdForClient clientId = some sessionId)
    (secondClient : second.namedSessionIdForClient clientId = some sessionId)
    (outward : Outward sessionId first command) :
    outwardResponse first clientId sessionId command =
      outwardResponse second clientId sessionId command := by
  have lists : (∀ target, sessionOwnedTargetForCommand command = some target →
      Owns sessionId first target) →
      listingResponse first clientId sessionId command =
        listingResponse second clientId sessionId command := by
    intro own
    have jobs := sortedJobListForClient_eq agree firstClient secondClient
    have crons := sortedCronListForClient_eq agree firstClient secondClient
    cases command with
    | log id =>
      have text : formatLogText first id (some sessionId) = formatLogText second id (some sessionId) := by
        refine formatLogText_eq agree ?_
        rintro text rfl target found
        exact own target found
      simp only [listingResponse, text]
    | showLog id limit tailBytes =>
      have text : formatLogText first id (some sessionId) = formatLogText second id (some sessionId) := by
        refine formatLogText_eq agree ?_
        rintro text rfl target found
        exact own target found
      simp only [listingResponse, text]
    | _ => simp only [listingResponse, jobs, crons]
  rw [outwardResponse, outwardResponse]
  cases found : sessionOwnedTargetForCommand command with
  | none => exact lists fun target there => by rw [found] at there; cases there
  | some target =>
    obtain ⟨kind, -⟩ := outward.kind found
    have same : targetOwner first (fun _ => none) target = some (some sessionId) ↔
        targetOwner second (fun _ => none) target = some (some sessionId) := by
      rw [targetOwner_eq_some_iff kind, targetOwner_eq_some_iff kind]
      obtain ⟨id, rfl | rfl⟩ := kind
      · exact exists_congr fun entry => and_congr_left fun owner => agree.jobs id entry owner
      · exact exists_congr fun entry => and_congr_left fun owner => agree.crons id entry owner
    by_cases own : targetOwner first (fun _ => none) target = some (some sessionId)
    · simp only [own, same.mp own, if_true]
      refine lists fun other there => ?_
      obtain rfl : target = other := Option.some.inj (found.symm.trans there)
      exact (targetOwner_eq_some_iff kind).mp own
    · simp only [own, mt same.mpr own, if_false]

/-- The two-run law, for a command of a client and for an item of a script of the session. -/
theorem named_session_isolated (env : Env) (config : Config) (sessionId : SessionId)
    (clientId : ClientId) (first second : SchedulerState) (agree : AgreeOn sessionId first second)
    (firstClient : first.namedSessionIdForClient clientId = some sessionId)
    (secondClient : second.namedSessionIdForClient clientId = some sessionId)
    (command : SingleCommand) (outward : Outward sessionId first command) :
    (∀ requestId, let one := evalCommand env config (.single command) clientId requestId first
      let two := evalCommand env config (.single command) clientId requestId second
      one.1 = two.1 ∧ one.1.isSome ∧ Untouched first one.2 ∧ Untouched second two.2) ∧
    ∀ resume scope, let context := ⟨some scope, some clientId, some sessionId⟩
      let one := handleCommandWithScope env config resume command clientId context first
      let two := handleCommandWithScope env config resume command clientId context second
      one.1 = two.1 ∧ Untouched first one.2 ∧ Untouched second two.2 := by
  have same := outwardResponse_eq agree firstClient secondClient outward
  have reverse : Outward sessionId second command := by
    rcases outward with listing | ⟨target, found, kind, foreign⟩
    · exact .inl listing
    · refine .inr ⟨target, found, kind, fun own => foreign ?_⟩
      obtain ⟨id, rfl | rfl⟩ := kind
      · obtain ⟨entry, there, owner⟩ := own
        exact ⟨entry, (agree.jobs id entry owner).mpr there, owner⟩
      · obtain ⟨entry, there, owner⟩ := own
        exact ⟨entry, (agree.crons id entry owner).mpr there, owner⟩
  refine ⟨fun requestId => ?_, fun resume scope => ?_⟩
  · have one := evalCommand_outward env config requestId firstClient outward
    have two := evalCommand_outward env config requestId secondClient reverse
    refine ⟨?_, ?_, one.2, two.2⟩
    · rw [one.1, two.1, same]
    · rw [one.1]
      rfl
  · have one := handleCommandWithScope_outward env config resume clientId
      ⟨some scope, some clientId, some sessionId⟩ rfl outward
    have two := handleCommandWithScope_outward env config resume clientId
      ⟨some scope, some clientId, some sessionId⟩ rfl reverse
    refine ⟨?_, one.2, two.2⟩
    rw [one.1, two.1, same]

end Isolation

section Witness

def ownedJob (owner : SessionId) : JobEntry where
  sessionId := some owner
  pipelineText := "sleep 1"
  status := .done
  exitCode := some 0
  startScope := none
  endScope := none
  chainId := none
  chainIndex := none
  chainTotal := none
  pendingReason := none

/-- A state in which client 1 is in the session `SS-1`, which owns job 1. -/
def twoSessions (foreign : Table JobId JobEntry) : SchedulerState :=
  { SchedulerState.new with
    jobs := foreign.insert 1 (ownedJob "SS-1")
    sessions :=
      { sessions := Table.empty.insert "named:SS-1"
          ⟨⟨Vector.replicate 32 0⟩, 1, {}, 1, none, some ⟨"SS-1", "mine", true, 0, 0, none⟩⟩
        unavailableNamedSessions := .empty
        clientSessions := Table.empty.insert 1 "named:SS-1"
        nextSessionIncarnation := 2 } }

/-- A foreign job cannot be told from a missing one. -/
theorem foreign_job_hidden :
    let present := twoSessions (Table.empty.insert 2 (ownedJob "SS-2"))
    let missing := twoSessions .empty
    (evalCommand Env.calm ⟨⟨[], []⟩, ⟨[]⟩, false, 10⟩ (.single (.kill "J2")) 1 7 present).1 =
      (evalCommand Env.calm ⟨⟨[], []⟩, ⟨[]⟩, false, 10⟩ (.single (.kill "J2")) 1 7 missing).1 := by
  have agree : AgreeOn "SS-1" (twoSessions (Table.empty.insert 2 (ownedJob "SS-2")))
      (twoSessions .empty) := by
    refine ⟨fun jobId entry owner => ?_, fun _ _ _ => Iff.rfl⟩
    simp only [twoSessions, Table.get_insert, Table.get_empty]
    split
    · rfl
    · split
      · constructor
        · rintro found
          obtain rfl := Option.some.inj found
          simp [ownedJob] at owner
        · simp
      · rfl
  have foreign : ¬ Owns "SS-1" (twoSessions (Table.empty.insert 2 (ownedJob "SS-2"))) (.job 2) := by
    rintro ⟨entry, found, owner⟩
    obtain rfl : ownedJob "SS-2" = entry := Option.some.inj found
    simp [ownedJob] at owner
  exact ((named_session_isolated Env.calm ⟨⟨[], []⟩, ⟨[]⟩, false, 10⟩ "SS-1" 1 _ _ agree rfl rfl
    (.kill "J2") (.inr ⟨.job 2, by decide, ⟨2, .inl rfl⟩, foreign⟩)).1 7).1

end Witness

end CueShell
