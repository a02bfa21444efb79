import CueShell.Model.CronSchedule
import CueShell.Model.Job
import CueShell.Model.Parser.Statements

/-! # The resolver

From statements to commands: bare input gets the default command of the mode, `:cron` input is
split into a schedule and a command body, arguments are checked.
-/

namespace CueShell

/-- Input mode: the default command for bare input is `:run` or `:cron`. -/
inductive Mode where
  | job
  | cron
deriving DecidableEq, Repr

inductive ScriptSource where
  | inline
  | file (path : String)
deriving DecidableEq, Repr

/-- Mode parameters, ordered by key. -/
structure ModeParams where
  params : List (String × Value) := []
deriving DecidableEq, Repr

namespace ModeParams

def get (mode : ModeParams) (key : String) : Option Value :=
  (mode.params.find? fun (name, _) => name == key).map Prod.snd

def insertOrdered (key : String) (value : Value) : List (String × Value) → List (String × Value)
  | [] => [(key, value)]
  | (name, old) :: rest =>
      if key = name then (key, value) :: rest
      else if key < name then (key, value) :: (name, old) :: rest
      else (name, old) :: insertOrdered key value rest

def insert (mode : ModeParams) (key : String) (value : Value) : ModeParams :=
  ⟨insertOrdered key value mode.params⟩

end ModeParams

/-- A resolved command that is not a script. -/
inductive SingleCommand where
  | run (chain : ChainNode) (params : ModeParams)
  | cron (schedule : CronSchedule) (chain : ChainNode) (params : ModeParams)
  | kill (id : String)
  | killJob (id : String)
  | cancelExecution (id : String)
  | removeCron (id : String)
  | retry (id : String)
  | out (id : String) (tailBytes : Option ℕ)
  | err (id : String)
  | jobOutput (id : String) (stdoutBytes stderrBytes : Option ℕ)
  | fg (id : String) (role : ForegroundRole)
  | wait (id : String)
  | send (id data : String)
  | cancel (id : String)
  | pause (id : String)
  | resume (id : String)
  | log (id : Option String)
  | showLog (id : Option String) (limit tailBytes : Option ℕ)
  | jobs
  | listJobs (limit : Option ℕ)
  | crons
  | listCrons (limit : Option ℕ)
  | scopes
  | providers
  | resources
  | listScopes (limit : Option ℕ)
  | env (subcommand : Option String)
  | showEnv (tailBytes : Option ℕ)
  | cd (path : String)
  | scope (subcommand : Option String)
  | help (topic : Option String)
  | config (subcommand : Option String)
  | showConfig (tailBytes : Option ℕ)
  | clear
  | quit
  | wrap (subcommand : Option String)
  | pty (subcommand : Option String)
deriving DecidableEq, Repr

structure ResolvedScriptItem where
  source : String
  command : SingleCommand
deriving DecidableEq, Repr

/-- Resolved command ready for execution. Statements do not nest, so neither do scripts. -/
inductive ResolvedCommand where
  | script (mode : Mode) (source : ScriptSource) (items : List ResolvedScriptItem)
  | single (command : SingleCommand)
deriving DecidableEq, Repr

/-- Cron schedule before resolution. -/
inductive CronScheduleAst where
  | every (period : Duration)
  | at (time : String) (days : Option String)
  | in (after : Duration)
  | crontab (expr : String)
  | preset (name : String)
deriving DecidableEq, Repr

def parseDurationStr (text : List Char) : Option Duration :=
  match Text.stripSuffix "ms".toList text with
  | some count => (parseAsciiU64 count).map Duration.fromMillis
  | none =>
      match [('s', 1), ('m', 60), ('h', 3600)].find? fun (unit, _) => text.getLast? == some unit with
      | some (_, multiplier) => do
          let count ← parseAsciiU64 text.dropLast
          if count * multiplier < 2 ^ 64 then some (Duration.fromSecs (count * multiplier)) else none
      | none => none

def convertCronSchedule : CronScheduleAst → Option CronSchedule
  | .every period => if period = 0 then none else some (.interval period)
  | .at time days => do
      let timeSecs ← parseTimeOfDay time
      match days with
      | some days => (parseDayFilter days).map fun filter => .timeOfDay timeSecs (some filter)
      | none => some (.timeOfDay timeSecs none)
  | .in after => if after = 0 then none else some (.delay after)
  | .crontab expr => (CrontabSchedule.parse expr).map .crontab
  | .preset name =>
      if name = "daily" then some (.preset .daily)
      else if name = "hourly" then some (.preset .hourly)
      else if name = "weekly" then some (.preset .weekly)
      else if name = "monthly" then some (.preset .monthly)
      else none

def formatDuration (duration : Duration) : String :=
  let seconds := duration / 1000000000
  if seconds = 0 then "0s"
  else if seconds % 86400 = 0 then toString (seconds / 86400) ++ "d"
  else if seconds % 3600 = 0 then toString (seconds / 3600) ++ "h"
  else if seconds % 60 = 0 then toString (seconds / 60) ++ "m"
  else toString seconds ++ "s"

def cronScheduleDisplay : CronScheduleAst → String
  | .every period => "every " ++ formatDuration period
  | .at time (some days) => "at " ++ time ++ " on " ++ days
  | .at time none => "at " ++ time
  | .in after => "in " ++ formatDuration after
  | .crontab expr => "cron " ++ expr
  | .preset name => name

section Cron

def cronError {α : Type} (span : Span) (kind : ParseErrorKind) (message : String)
    (suggestions : List String) : Except ParseError α :=
  .error ⟨span, message, kind, suggestions⟩

/-- The duration after `every` or `in`. -/
def requireDuration (words : List String) (span : Span) (keyword suggestion : String) :
    Except ParseError Duration :=
  match words[1]?.bind fun word => parseDurationStr word.toList with
  | some duration => .ok duration
  | none => cronError span .invalidCronSchedule
      ("expected duration (e.g. 5m, 30s) after `" ++ keyword ++ "`") [suggestion]

/-- A word of the schedule that must be there. -/
def requireWord (words : List String) (index : ℕ) (span : Span) (message suggestion : String) :
    Except ParseError String :=
  match words[index]? with
  | some word => .ok word
  | none => cronError span .invalidCronSchedule message [suggestion]

/-- A five-field crontab expression in front of `do`. -/
def parseDoSchedule (words : List String) (span : Span) :
    Except ParseError (CronScheduleAst × ℕ) :=
  match words.findIdx? (· == "do") with
  | some index =>
      if index = 0 then
        cronError span .invalidCronSchedule "expected schedule text before `do`"
          ["*/5 * * * * do curl api/health"]
      else if index = 5 then .ok (.crontab (" ".intercalate (words.take index)), index + 1)
      else
        cronError span .invalidCronSchedule
          "`do` currently supports five-field crontab schedules only"
          ["*/5 * * * * do curl api/health", "cron */5 * * * * curl api/health"]
  | none =>
      cronError span .invalidCronSchedule
        ("expected schedule keyword (every, at, on, in, cron, daily, ...) or " ++
          "`<5-field-crontab> do <cmd>`")
        ["every 5m", "at 9:00", "on weekdays at 9am", "*/5 * * * * do curl api/health"]

/-- The schedule at the head of the words and the number of words it takes. -/
def parseScheduleWords (words : List String) (span : Span) :
    Except ParseError (CronScheduleAst × ℕ) :=
  match words[0]? with
  | none => cronError span .missingArgument "`:cron` requires a schedule expression"
      [":cron every 5m cargo test"]
  | some keyword =>
      if keyword = "every" then do
        let period ← requireDuration words span "every" "every 5m"
        .ok (.every period, 2)
      else if keyword = "at" then do
        let time ← requireWord words 1 span "expected time after `at`" "at 9:00"
        if words[2]? = some "on" then do
          let days ← requireWord words 3 span "expected day filter after `on`" "at 9am on weekdays"
          .ok (.at time (some days), 4)
        else .ok (.at time none, 2)
      else if keyword = "on" then do
        let days ← requireWord words 1 span "expected day filter after `on`" "on weekdays at 9am"
        if words[2]? = some "at" then do
          let time ← requireWord words 3 span "expected time after `at`" "on weekdays at 9am"
          .ok (.at time (some days), 4)
        else
          cronError span .invalidCronSchedule "expected `at <time>` after day filter"
            ["on weekdays at 9am"]
      else if keyword = "in" then do
        let after ← requireDuration words span "in" "in 30s"
        .ok (.in after, 2)
      else if keyword = "cron" then
        if words.length < 6 then
          cronError span .invalidCronSchedule "expected five cron fields after `cron`"
            ["cron */5 * * * *"]
        else .ok (.crontab (" ".intercalate ((words.drop 1).take 5)), 6)
      else if keyword ∈ ["daily", "hourly", "weekly", "monthly"] then .ok (.preset keyword, 1)
      else parseDoSchedule words span

def parseBareCronSchedule (words : List String) (span : Span) :
    Except ParseError (CronScheduleAst × ℕ) := do
  let (schedule, consumed) ← parseScheduleWords words span
  .ok (schedule, if words[consumed]? = some "do" then consumed + 1 else consumed)

end Cron

/-- Replace the words of the leftmost segment, if there is one. -/
def JobPlan.setFirstCommand (words : List String) : JobPlan → JobPlan
  | .pipeline ⟨segment :: rest⟩ => .pipeline ⟨{ segment with command := words } :: rest⟩
  | .pipeline ⟨[]⟩ => .pipeline ⟨[]⟩
  | .and left right => .and (left.setFirstCommand words) right
  | .or left right => .or (left.setFirstCommand words) right

/-- The words of the leftmost segment, which the schedule is taken from. -/
def JobPlan.leftmostCommandWords : JobPlan → Option (List String)
  | .pipeline body => body.segments.head?.map PipeSegment.command
  | .and left _ | .or left _ => left.leftmostCommandWords

def ChainNode.leftmostCommandWords : ChainNode → Option (List String)
  | .leaf plan => plan.leftmostCommandWords
  | .serial left _ _ | .parallel left _ _ => left.leftmostCommandWords

def ChainNode.setLeftmostCommandWords (words : List String) : ChainNode → ChainNode
  | .leaf plan => .leaf (plan.setFirstCommand words)
  | .serial left op right => .serial (left.setLeftmostCommandWords words) op right
  | .parallel left op right => .parallel (left.setLeftmostCommandWords words) op right

def splitBareCronChain (chain : ChainNode) (span : Span) :
    Except ParseError (CronScheduleAst × ChainNode) :=
  match chain.leftmostCommandWords with
  | none => cronError span .missingArgument "`:cron` requires a schedule expression"
      [":cron every 5m cargo test"]
  | some words => do
      let (schedule, consumed) ← parseBareCronSchedule words span
      if words.length = consumed then
        cronError span .missingArgument "`:cron` requires a command body after schedule" []
      else .ok (schedule, chain.setLeftmostCommandWords (words.drop consumed))

def resolveCron (chain : ChainNode) (params : ModeParams) (span : Span) :
    Except ParseError SingleCommand := do
  let (scheduleAst, body) ← splitBareCronChain chain span
  match convertCronSchedule scheduleAst with
  | some schedule => .ok (.cron schedule body params)
  | none =>
      cronError span .invalidCronSchedule
        ("cannot parse cron schedule from: " ++ cronScheduleDisplay scheduleAst)
        ["every 5m", "at 09:00", "daily"]

def convertModeParams (params : List (String × Value)) : ModeParams :=
  params.foldl (fun mode (key, value) => mode.insert key value) {}

def extractId (argument : Argument) (span : Span) (command : String) : Except ParseError String :=
  match argument with
  | .idRef kind number => .ok (kind.idText number)
  | _ => .error ⟨span, "`:" ++ command ++ "` requires an ID (e.g. J1, C1)", .invalidIdRef,
      [":" ++ command ++ " J1"]⟩

def extractTailRef : Argument → String × Option ℕ
  | .tailRef kind number bytes => (kind.idText number, bytes)
  | .idRef kind number => (kind.idText number, none)
  | _ => ("", none)

def extractText : Argument → String
  | .text text => text
  | .chain chain => chain.display
  | _ => ""

def extractOptionalText : Argument → Option String
  | .text text => if text = "" then none else some text
  | _ => none

/-- The first word of a trimmed text and what follows it. -/
def splitFirstWord (text : List Char) : Option (List Char × List Char) :=
  let trimmed := Text.trim text
  if trimmed = [] then none
  else some (trimmed.takeWhile (!Text.isWhiteSpace ·), trimmed.dropWhile (!Text.isWhiteSpace ·))

def extractTargetAndText (argument : Argument) (span : Span) (command : String) :
    Except ParseError (String × String) :=
  let text := match argument with
    | .text text => text.toList
    | _ => []
  let fail (message : String) : Except ParseError (String × String) :=
    .error ⟨span, message, .missingArgument, [":" ++ command ++ " J1 your input"]⟩
  match splitFirstWord (Text.trim text) with
  | none => fail ("`:" ++ command ++ "` requires a target and input")
  | some (id, rest) =>
      if Text.trim rest = [] then fail ("`:" ++ command ++ "` requires input after the target")
      else .ok (String.ofList id, String.ofList (Text.trim rest))

namespace Resolver

/-- The commands of the parser's table; the parser rejects every other name. -/
def resolveCommand (name : String) (modeParams : List (String × Value)) (argument : Argument)
    (span : Span) : Option (Except ParseError SingleCommand) :=
  let params := convertModeParams modeParams
  match name, argument with
  | "run", .chain chain => some (.ok (.run chain params))
  | "cron", .chain chain => some (resolveCron chain params span)
  | "kill", _ => some ((extractId argument span name).map .kill)
  | "retry", _ => some ((extractId argument span name).map .retry)
  | "out", _ => some ((extractId argument span name).map (.out · none))
  | "tail", _ =>
      let (id, bytes) := extractTailRef argument
      some (.ok (.out id (some (bytes.getD 8192))))
  | "err", _ => some ((extractId argument span name).map .err)
  | "fg", _ => some ((extractId argument span name).map (.fg · .controller))
  | "watch", _ => some ((extractId argument span name).map (.fg · .observer))
  | "wait", _ => some ((extractId argument span name).map .wait)
  | "send", _ => some ((extractTargetAndText argument span name).map fun (id, data) => .send id data)
  | "cancel", _ => some ((extractId argument span name).map .cancel)
  | "pause", _ => some ((extractId argument span name).map .pause)
  | "resume", _ => some ((extractId argument span name).map .resume)
  | "log", .idRef kind number => some (.ok (.log (some (kind.idText number))))
  | "log", _ => some (.ok (.log none))
  | "jobs", _ => some (.ok .jobs)
  | "crons", _ => some (.ok .crons)
  | "scopes", _ => some (.ok .scopes)
  | "providers", _ => some (.ok .providers)
  | "resources", _ => some (.ok .resources)
  | "env", _ => some (.ok (.env (extractOptionalText argument)))
  | "cd", _ => some (.ok (.cd (extractText argument)))
  | "scope", _ => some (.ok (.scope (extractOptionalText argument)))
  | "help", _ => some (.ok (.help (extractOptionalText argument)))
  | "config", _ => some (.ok (.config (extractOptionalText argument)))
  | "clear", _ => some (.ok .clear)
  | "quit", _ | "exit", _ => some (.ok .quit)
  | "wrap", _ => some (.ok (.wrap (extractOptionalText argument)))
  | "pty", _ => some (.ok (.pty (extractOptionalText argument)))
  | _, _ => none

def isModeHelpRequest : Argument → Bool
  | .chain (.leaf (.pipeline ⟨[⟨command, none⟩]⟩)) => command == ["?"]
  | _ => false

def modeHelpTopic : Mode → String
  | .job => "job"
  | .cron => "cron"

def resolveBare (argument : Argument) (mode : Mode) (span : Span) :
    Except ParseError SingleCommand :=
  if isModeHelpRequest argument then .ok (.help (some (modeHelpTopic mode)))
  else
    match mode, argument with
    | .job, .chain chain => .ok (.run chain {})
    | .job, .empty => .error ⟨span, "empty input", .missingArgument, []⟩
    | .job, _ => .error ⟨span, "JOB mode expects a command to run", .unexpectedToken, []⟩
    | .cron, .chain chain => resolveCron chain {} span
    | .cron, .empty => .error ⟨span, "`:cron` requires a schedule expression", .missingArgument,
        [":cron every 5m cargo test"]⟩
    | .cron, _ => .error ⟨span, "CRON mode expects a schedule expression and command body",
        .unexpectedToken, []⟩

/-- The value `none` stands for the `unreachable!` branches of the source. -/
def resolveStatement (mode : Mode) : Statement → Option (Except ParseError SingleCommand)
  | .bareInput argument span => some (resolveBare argument mode span)
  | .command name modeParams argument span => resolveCommand name modeParams argument span

def resolveItems (mode : Mode) : List ScriptItemAst →
    Option (Except ParseError (List ResolvedScriptItem))
  | [] => some (.ok [])
  | item :: rest =>
      match resolveStatement mode item.statement with
      | none => none
      | some (.error error) => some (.error error)
      | some (.ok command) =>
          (resolveItems mode rest).map fun items => items.map (⟨item.source, command⟩ :: ·)

def resolve (mode : Mode) : Ast → Option (Except ParseError ResolvedCommand)
  | .script items _ => (resolveItems mode items).map fun items => items.map (.script mode .inline)
  | .single statement => (resolveStatement mode statement).map fun command => command.map .single

end Resolver

/-- Tokenize, parse and resolve; `none` if the source would panic. -/
def parseCommand (input : String) (mode : Mode) : Option (Except ParseError ResolvedCommand) :=
  match Parser.parse input with
  | .error error => some (.error error)
  | .ok ast => Resolver.resolve mode ast

def parseFileScriptCommand (input : String) : Option (Except ParseError ResolvedCommand) :=
  match Parser.parseFileScript input with
  | .error error => some (.error error)
  | .ok ast => Resolver.resolve .job ast

/-- What `:retry` and the restore of stored crons read a chain back with. -/
def parseChainText (text : String) : Option ChainNode :=
  match parseCommand (":run " ++ text) .job with
  | some (.ok (.single (.run chain _))) => some chain
  | _ => none

end CueShell
