import CueShell.Model.Scheduler.Launch

/-! # Queries and settings

Identifiers and the sessions that own them, the lists and logs a client may read, and the commands that
change nothing but its session.
-/

namespace CueShell

variable (env : Env) (config : Config)

section Identifiers

def parsePrefixedId (letters text : String) : Option ℕ :=
  (Text.stripPrefix letters.toList (Text.trim text.toList)).bind (Text.parseDigits (2 ^ 32))

def parseJobId (text : String) : Option JobId := parsePrefixedId "J" text
def parseChainId (text : String) : Option ChainId := parsePrefixedId "CH" text
def parseScriptId (text : String) : Option ScriptId := parsePrefixedId "R" text
def parseCronId (text : String) : Option CronId := parsePrefixedId "C" text

inductive SessionOwnedTarget where
  | job (id : JobId)
  | chain (id : ChainId)
  | script (id : ScriptId)
  | cron (id : CronId)
deriving DecidableEq, Repr

def SessionOwnedTarget.display : SessionOwnedTarget → String
  | .job id => "job " ++ jobText id
  | .chain id => "chain " ++ chainText id
  | .script id => "script " ++ scriptText id
  | .cron id => "cron " ++ cronText id

def sessionOwnedTargetForCommand : SingleCommand → Option SessionOwnedTarget
  | .kill id => ((parseJobId id).map .job).or ((parseCronId id).map .cron)
  | .killJob id | .retry id | .out id _ | .err id | .jobOutput id _ _ | .fg id _ | .wait id
  | .send id _ | .cancel id => (parseJobId id).map .job
  | .cancelExecution id =>
      (((parseJobId id).map .job).or ((parseChainId id).map .chain)).or
        ((parseScriptId id).map .script)
  | .removeCron id | .pause id | .resume id => (parseCronId id).map .cron
  | .log (some id) | .showLog (some id) _ _ =>
      ((parseJobId id).map .job).or ((parseCronId id).map .cron)
  | _ => none

/-- The owner of a target, if it is known. -/
def targetOwner (state : SchedulerState) (finishedScript : ScriptId → Option (Option SessionId)) :
    SessionOwnedTarget → Option (Option SessionId)
  | .job id => (state.jobs.get id).map JobEntry.sessionId
  | .chain id => (state.chains.get id).map ChainState.sessionId
  | .script id => ((state.pendingScripts.get id).map PendingScriptRun.sessionId).or (finishedScript id)
  | .cron id => (state.crons.get id).map CronEntry.sessionId

/-- A client of a named session reaches only what that session owns. -/
def authorizeSessionOwnedTarget (requester : Option SessionId) (target : SessionOwnedTarget) :
    Sched Bool := do
  let finished ← ask env.finishedScriptOwner
  let state ← get
  return requester.all fun session => targetOwner state finished target = some (some session)

end Identifiers

section Lists

def JobStatus.debug : JobStatus → String
  | .pending => "Pending"
  | .running => "Running"
  | .done => "Done"
  | .failed => "Failed"
  | .killed => "Killed"
  | .cancelled .user => "Cancelled(User)"
  | .cancelled .chainAborted => "Cancelled(ChainAborted)"
  | .cancelled .timeout => "Cancelled(Timeout)"

def CronStatus.debug : CronStatus → String
  | .scheduled => "Scheduled"
  | .paused => "Paused"
  | .completed => "Completed"
  | .expired => "Expired"
  | .failed => "Failed"

/-- The first four bytes in hexadecimal. -/
def ScopeHash.display (hash : ScopeHash) : String :=
  let hex (byte : UInt8) := String.ofList
    [Nat.digitChar (byte.toNat / 16), Nat.digitChar (byte.toNat % 16)]
  "S@" ++ String.join ((hash.digest.toList.take 4).map hex)

/-- The entries of a table in the order of their keys. -/
def sortedEntries {ν : Type} (table : Table ℕ ν) : List (ℕ × ν) :=
  (table.keys.sort (· ≤ ·)).filterMap fun key => (table.get key).map (key, ·)

def sortedJobList (state : SchedulerState) : List (JobId × JobEntry) := sortedEntries state.jobs

def cronInfo (cronId : CronId) (entry : CronEntry) : CronInfo :=
  ⟨cronId, entry.sessionId, entry.schedule.display, entry.chain.display, entry.status⟩

def sortedCronList (state : SchedulerState) : List CronInfo :=
  (sortedEntries state.crons).map fun (cronId, entry) => cronInfo cronId entry

/-- A client without a named session sees the jobs of all sessions. -/
def sortedJobListForClient (state : SchedulerState) (clientId : ClientId) : List (JobId × JobEntry) :=
  match state.namedSessionIdForClient clientId with
  | none => sortedJobList state
  | some sessionId =>
      (sortedEntries state.jobs).filter fun (_, entry) => entry.sessionId = some sessionId

def sortedCronListForClient (state : SchedulerState) (clientId : ClientId) : List CronInfo :=
  match state.namedSessionIdForClient clientId with
  | none => sortedCronList state
  | some sessionId =>
      ((sortedEntries state.crons).filter fun (_, entry) => entry.sessionId = some sessionId).map
        fun (cronId, entry) => cronInfo cronId entry

def pageItems {α : Type} (items : List α) (limit : Option ℕ) : List α × PageInfo :=
  let total := items.length
  let shown := limit.elim total (min total)
  (items.take shown, ⟨total, shown, limit, shown < total⟩)

def maxOutputTailBytes : ℕ := 16 * 1024 * 1024 / 4

def invalidTailBytesResponse (field : String) (tailBytes : Option ℕ) : Option Response :=
  if tailBytes.any (· > maxOutputTailBytes) then
    some (errorResponse "INVALID_SYNTAX"
      (field ++ " must be <= " ++ toString maxOutputTailBytes ++ " bytes"))
  else none

/-- The longest end of a text that fits into a number of bytes. -/
def tailUtf8 (text : String) (maxBytes : ℕ) : String × Bool :=
  if maxBytes = 0 then ("", text ≠ "")
  else if Text.byteLength text.toList ≤ maxBytes then (text, false)
  else (String.ofList (Text.dropBytes (Text.byteLength text.toList - maxBytes) text.toList), true)

/-- `str::lines`: a carriage return is not part of a line if a line feed follows it. -/
def textLines (text : List Char) : List (List Char) :=
  (splitInclusive text).map fun (line, ended) =>
    if ended then (Text.stripSuffix ['\r'] line).getD line else line

def limitText (text : String) (lineLimit tailBytes : Option ℕ) : String × Bool :=
  let (text, byteTruncated) := tailBytes.elim (text, false) (tailUtf8 text)
  match lineLimit with
  | none => (text, byteTruncated)
  | some limit =>
      let lines := textLines text.toList
      if lines.length ≤ limit then (text, byteTruncated)
      else ("\n".intercalate ((lines.drop (lines.length - limit)).map String.ofList), true)

/-- The log of one job or cron. -/
def formatLogOf (state : SchedulerState) (id : String) : String :=
  match parseJobId id, parseCronId id with
  | some jobId, _ =>
      match state.jobs.get jobId with
      | none => id ++ ": job not found"
      | some entry =>
          jobText jobId ++ ": [" ++ entry.pipelineText ++ "] " ++ entry.status.debug ++
            " (scope: " ++ (entry.startScope.map ScopeHash.display).getD "<none>" ++ ")"
  | none, some cronId =>
      match state.crons.get cronId with
      | none => id ++ ": cron not found"
      | some entry =>
          cronText cronId ++ ": " ++ entry.schedule.display ++ " [" ++ entry.status.debug ++ "]"
  | none, none => id ++ ": unrecognised ID (expected J<n> or C<n>)"

def formatLogText (state : SchedulerState) (id : Option String) (requester : Option SessionId) :
    String :=
  match id with
  | some id => formatLogOf state id
  | none =>
      let jobs := (sortedEntries state.jobs).filter fun (_, entry) =>
        requester.isNone || entry.sessionId = requester
      let crons := (sortedEntries state.crons).filter fun (_, entry) =>
        requester.isNone || entry.sessionId = requester
      let jobLines := jobs.map fun (jobId, entry) =>
        "  " ++ jobText jobId ++ ": [" ++ entry.pipelineText ++ "] " ++ entry.status.debug
      let cronLines := crons.map fun (cronId, entry) =>
        "  " ++ cronText cronId ++ ": " ++ entry.schedule.display ++ " [" ++ entry.status.debug ++ "]"
      "\n".intercalate
        ((if jobs = [] then ["jobs: none"] else "=== Jobs ===" :: jobLines) ++
          if crons = [] then ["crons: none"] else "=== Crons ===" :: cronLines)

end Lists

section Settings

def missingSessionResponse : Response :=
  errorResponse "INVALID_REQUEST" "client session handshake required"

/-- `:env set`, `:env unset` and `:cd` give the session of a client a new scope. -/
def handleScopeCommand (command : SingleCommand) (clientId : ClientId) : Sched Response := do
  match ← ask fun question => env.scopeDelta question command with
  | .error response => return response
  | .ok delta =>
      match (← get).clientScope clientId with
      | none => return missingSessionResponse
      | some base => do
          match ← ask fun question => env.deriveScope question base delta with
          | .error message => return errorResponse "INTERNAL" message
          | .ok hash => do
              let answers ← ask env.sessionAnswers
              let (error, sessions) :=
                (← get).sessions.updateClientSessionScope answers clientId hash
              modify fun state => { state with sessions := sessions }
              match error with
              | some error => return errorResponse "INTERNAL" error
              -- The summary of the change is read from the scope store.
              | none => ask fun question => env.answer question command

/-- `:wrap` and `:pty`: show or change one default of the session. -/
def handleSessionBoolDefault (clientId : ClientId) (subcommand : Option String) (name : String)
    (configDefault : Bool) (field : LaunchDefaults → Option Bool)
    (store : LaunchDefaults → Bool → LaunchDefaults) : Sched Response := do
  let registry := (← get).sessions
  match registry.clientSessions.get clientId with
  | none => return missingSessionResponse
  | some key =>
      match registry.sessions.get key with
      | none => return errorResponse "INVALID_STATE" "client session unavailable"
      | some session =>
          let change (value : Bool) (verb : String) : Sched Response := do
            let answers ← ask env.sessionAnswers
            let (error, sessions) :=
              registry.updateDefaults answers key session (store session.defaults value)
            modify fun state => { state with sessions := sessions }
            match error with
            | some error => return errorResponse "INTERNAL" error
            | none => return .ok (.evalText (name ++ " " ++ verb ++ " for this session"))
          match subcommand.getD "status" with
          | "on" => change true "enabled"
          | "off" => change false "disabled"
          | "" | "status" =>
              let source := match field session.defaults with
                | some true => "session override: on"
                | some false => "session override: off"
                | none => "config"
              let shown := if (field session.defaults).getD configDefault then "enabled" else "disabled"
              return .ok (.evalText (name ++ " status: " ++ shown ++ "\n  source: " ++ source))
          | other =>
              return errorResponse "INVALID_SYNTAX"
                (":" ++ name ++ " " ++ other ++ " — expected 'on', 'off', or 'status'")

end Settings

/-- Commands that start, stop and change no job, chain, cron or script. -/
def handleQuery (command : SingleCommand) (clientId : ClientId) (requester : Option SessionId) :
    Sched Response := do
  let state ← get
  match command with
  | .jobs => return .ok (.jobList (sortedJobListForClient state clientId))
  | .listJobs limit =>
      let (jobs, page) := pageItems (sortedJobListForClient state clientId) limit
      return .ok (.jobListPage jobs page)
  | .crons => return .ok (.cronList (sortedCronListForClient state clientId))
  | .listCrons limit =>
      let (crons, page) := pageItems (sortedCronListForClient state clientId) limit
      return .ok (.cronListPage crons page)
  | .log id => return .ok (.evalText (formatLogText state id requester))
  | .showLog id limit tailBytes =>
      match invalidTailBytesResponse "tail_bytes" tailBytes with
      | some response => return response
      | none =>
          let (text, truncated) := limitText (formatLogText state id requester) limit tailBytes
          return .ok (.textOutput text truncated)
  | .env _ | .cd _ => handleScopeCommand env command clientId
  | .wrap subcommand =>
      handleSessionBoolDefault env clientId subcommand "wrapper" config.wrapperEnabled
        LaunchDefaults.wrapperEnabled fun defaults value =>
          { defaults with wrapperEnabled := some value }
  | .pty subcommand =>
      handleSessionBoolDefault env clientId subcommand "pty" true LaunchDefaults.pty
        fun defaults value => { defaults with pty := some value }
  | .clear | .quit => return .ok .ack
  | other => ask fun question => env.answer question other

end CueShell
