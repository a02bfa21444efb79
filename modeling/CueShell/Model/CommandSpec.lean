import Mathlib.Data.List.Basic

/-! # The command registry

Names, argument shapes and mode parameters of the `:` commands, as far as the parser reads them.
-/

namespace CueShell

/-- Entity ID shape accepted by a command argument. -/
inductive CommandIdKind where
  | job
  | cron
  | jobOrCron
deriving DecidableEq, Repr

/-- Parser-facing argument classification for a `:` command. -/
inductive CommandArgKind where
  | chain
  | cron
  | id (allowed : CommandIdKind)
  | tail (allowed : CommandIdKind)
  | text
  | targetText (allowed : CommandIdKind)
  | optionalId (allowed : CommandIdKind)
  | optionalText
  | empty
deriving DecidableEq, Repr

inductive ModeParamValueKind where
  | string
  | bool
deriving DecidableEq, Repr

structure CommandSpec where
  name : String
  argKind : CommandArgKind
  usage : String
deriving DecidableEq, Repr

structure ModeParamSpec where
  name : String
  commands : List String
  valueKind : ModeParamValueKind
  valueHint : String
deriving DecidableEq, Repr

namespace CommandIdKind

def acceptsJob : CommandIdKind → Bool
  | .job | .jobOrCron => true
  | .cron => false

def acceptsCron : CommandIdKind → Bool
  | .cron | .jobOrCron => true
  | .job => false

def display : CommandIdKind → String
  | .job => "J<n>"
  | .cron => "C<n>"
  | .jobOrCron => "J<n> or C<n>"

def firstExample : CommandIdKind → String
  | .job | .jobOrCron => "J1"
  | .cron => "C1"

end CommandIdKind

def modeParamSpecs : List ModeParamSpec :=
  [⟨"cwd", ["run", "cron"], .string, "/path"⟩,
   ⟨"wrapper", ["run", "cron"], .bool, "true"⟩,
   ⟨"scope", ["run", "cron"], .bool, "true"⟩,
   ⟨"pty", ["run"], .bool, "false"⟩,
   ⟨"sandbox", ["run"], .string, "overlay"⟩,
   ⟨"sandbox.upper", ["run"], .string, "tmpfs"⟩,
   ⟨"need.<resource>", ["run"], .string, "1"⟩]

def commandSpecs : List CommandSpec :=
  [⟨"run", .chain, ":run <command>"⟩,
   ⟨"cron", .cron, ":cron <schedule> <command>"⟩,
   ⟨"kill", .id .jobOrCron, ":kill <id>"⟩,
   ⟨"retry", .id .job, ":retry J<n>"⟩,
   ⟨"out", .id .job, ":out J<n>"⟩,
   ⟨"tail", .tail .job, ":tail J<n> [bytes]"⟩,
   ⟨"err", .id .job, ":err J<n>"⟩,
   ⟨"fg", .id .job, ":fg J<n>"⟩,
   ⟨"watch", .id .job, ":watch J<n>"⟩,
   ⟨"wait", .id .job, ":wait J<n>"⟩,
   ⟨"send", .targetText .job, ":send J<n> <input>"⟩,
   ⟨"cancel", .id .job, ":cancel J<n>"⟩,
   ⟨"pause", .id .cron, ":pause C<n>"⟩,
   ⟨"resume", .id .cron, ":resume C<n>"⟩,
   ⟨"log", .optionalId .jobOrCron, ":log [id]"⟩,
   ⟨"jobs", .empty, ":jobs"⟩,
   ⟨"crons", .empty, ":crons"⟩,
   ⟨"scopes", .empty, ":scopes"⟩,
   ⟨"providers", .empty, ":providers"⟩,
   ⟨"resources", .empty, ":resources"⟩,
   ⟨"env", .optionalText, ":env [subcommand]"⟩,
   ⟨"cd", .optionalText, ":cd <path>"⟩,
   ⟨"scope", .optionalText, ":scope list"⟩,
   ⟨"help", .optionalText, ":help [topic]"⟩,
   ⟨"config", .optionalText, ":config [subcommand]"⟩,
   ⟨"wrap", .optionalText, ":wrap [on|off|status]"⟩,
   ⟨"pty", .optionalText, ":pty [on|off|status]"⟩,
   ⟨"clear", .empty, ":clear"⟩,
   ⟨"quit", .empty, ":quit"⟩,
   ⟨"exit", .empty, ":exit"⟩]

def commandSpec (name : String) : Option CommandSpec :=
  commandSpecs.find? fun spec => spec.name == name

def ModeParamSpec.appliesTo (spec : ModeParamSpec) (command : String) : Bool :=
  spec.commands.contains command

def modeParamSpec (name : String) : Option ModeParamSpec :=
  modeParamSpecs.find? fun spec => spec.name == name

def modeParamSpecForCommand (command name : String) : Option ModeParamSpec :=
  modeParamSpecs.find? fun spec => spec.name == name && spec.appliesTo command

def CommandSpec.acceptsModeParams (spec : CommandSpec) : Bool :=
  modeParamSpecs.any fun param => param.appliesTo spec.name

/-- One row of the edit-distance table from the row before it. -/
def editRow (c : Char) : List Char → List ℕ → ℕ → List ℕ
  | d :: rest, diagonal :: above :: previous, left =>
      let cost := if c = d then 0 else 1
      let cell := min (min (above + 1) (left + 1)) (diagonal + cost)
      cell :: editRow c rest (above :: previous) cell
  | _, _, _ => []

/-- Rows of the edit-distance table, starting from row number `row`. -/
def editRows (b : List Char) : List Char → ℕ → List ℕ → List ℕ
  | [], _, current => current
  | c :: rest, row, current => editRows b rest (row + 1) ((row + 1) :: editRow c b current (row + 1))

def editDistance (a b : String) : ℕ :=
  ((editRows b.toList a.toList 0 (List.range (b.length + 1))).getLast?).getD 0

def commandSuggestions (name : String) : List String :=
  (commandSpecs.filter fun spec =>
    (name.toList.take 1).isPrefixOf spec.name.toList || editDistance name spec.name ≤ 2).map
      CommandSpec.name

end CueShell
