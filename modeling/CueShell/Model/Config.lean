import CueShell.Model.Chain
import CueShell.ToMathlib.Text

/-! # Guardrails

The part of the daemon configuration that the scheduler reads: block and warn rules, the wrapper
default and the retention limit. Ordered maps are lists in key order.
-/

namespace CueShell

inductive BlockCommandRule where
  /-- The whole command is forbidden, with a hint. -/
  | wholeCommand (hint : String)
  /-- Argument patterns that are forbidden, with hints. -/
  | args (rules : List (String × String))
deriving DecidableEq, Repr

structure BlockConfig where
  commands : List (String × BlockCommandRule)
  versionedCommands : List (String × String)
deriving DecidableEq, Repr

structure WarnConfig where
  commands : List (String × String)
deriving DecidableEq, Repr

structure Config where
  block : BlockConfig
  warn : WarnConfig
  wrapperEnabled : Bool
  maxJobHistory : ℕ
deriving DecidableEq, Repr

inductive BlockDecision where
  | block (reason : String)
  | warn (hint : String)
deriving DecidableEq, Repr

/-- The last component of a path that is neither `.` nor `..`, as `Path::file_name` gives it. -/
def fileName (path : String) : Option String :=
  match ((path.toList.splitOn '/').filter fun part => part ≠ [] ∧ part ≠ ['.']).getLast? with
  | some ['.', '.'] | none => none
  | some part => some (String.ofList part)

def commandBase (cmdName : String) : String := (fileName cmdName).getD cmdName

def blockedArgMatches (arg pattern : String) : Bool :=
  arg == pattern || (pattern ++ "=").toList.isPrefixOf arg.toList

def versionedCommandMatches (base stem : String) : Bool :=
  if stem = "" then false
  else if base = stem then true
  else
    match Text.stripPrefix stem.toList base.toList with
    | none => false
    | some suffix =>
        suffix ≠ [] && (suffix.splitOn '.').all fun part => part ≠ [] && part.all Char.isDigit

/-- The value under a key of an ordered map. -/
def lookupKey {ν : Type} (entries : List (String × ν)) (key : String) : Option ν :=
  (entries.find? fun (name, _) => name == key).map Prod.snd

/-- Put a value under a key of an ordered map. -/
def putKey {ν : Type} (key : String) (value : ν) : List (String × ν) → List (String × ν)
  | [] => [(key, value)]
  | (name, old) :: rest =>
      if key = name then (key, value) :: rest
      else if key < name then (key, value) :: (name, old) :: rest
      else (name, old) :: putKey key value rest

/-- `or_insert`: a value that is there stays. -/
def putNew {ν : Type} (key : String) (value : ν) (entries : List (String × ν)) :
    List (String × ν) :=
  if (lookupKey entries key).isSome then entries else putKey key value entries

namespace BlockConfig

def commandBlockReason (cmdName hint : String) : String :=
  "blocked: " ++ "`" ++ cmdName ++ "` is forbidden by daemon config\n  hint: " ++ hint ++
    "\n  (see [block.commands] in daemon.toml)"

def argBlockReason (cmdName pattern hint : String) : String :=
  commandBlockReason (cmdName ++ " " ++ pattern) hint

/-- The first argument that some pattern forbids. -/
def checkArgs (cmdName : String) (rules : List (String × String)) (args : List String) :
    Option BlockDecision :=
  args.findSome? fun arg =>
    (rules.find? fun (pattern, _) => blockedArgMatches arg pattern).map fun (pattern, hint) =>
      .block (argBlockReason cmdName pattern hint)

def check (config : BlockConfig) : List String → Option BlockDecision
  | [] => none
  | cmdName :: args =>
      match lookupKey config.commands (commandBase cmdName) with
      | some (.wholeCommand hint) => some (.block (commandBlockReason cmdName hint))
      | some (.args rules) => checkArgs cmdName rules args
      | none =>
          (config.versionedCommands.find? fun (stem, _) =>
              versionedCommandMatches (commandBase cmdName) stem).map fun (_, hint) =>
            .block (commandBlockReason cmdName hint)

/-- One line of the block section. -/
inductive Rule where
  | wholeCommand (name hint : String)
  | argPattern (name pattern hint : String)
  | versionedStem (stem hint : String)
deriving DecidableEq, Repr

/-- Add a rule for a name that has none of its kind. A command with a rule for the whole command has no
argument patterns beside it. -/
def addRule (config : BlockConfig) : Rule → BlockConfig
  | .wholeCommand name hint =>
      match lookupKey config.commands name with
      | some (.wholeCommand _) => config
      | _ => { config with commands := putKey name (.wholeCommand hint) config.commands }
  | .argPattern name pattern hint =>
      match lookupKey config.commands name with
      | some (.args rules) =>
          let rule := BlockCommandRule.args (putNew pattern hint rules)
          { config with commands := putKey name rule config.commands }
      | some (.wholeCommand _) => config
      | none => { config with commands := putKey name (.args [(pattern, hint)]) config.commands }
  | .versionedStem stem hint =>
      { config with versionedCommands := putNew stem hint config.versionedCommands }

def defaultGitNoVerifyHint : String :=
  "Run the commit normally; if hooks fail, inspect and fix the hook/check or ask before any alternative."

/-- The one default is an argument pattern, and it is added in the same way. -/
def ensureDefaults (config : BlockConfig) : BlockConfig :=
  config.addRule (.argPattern "git" "--no-verify" defaultGitNoVerifyHint)

end BlockConfig

def WarnConfig.check (config : WarnConfig) : List String → Option BlockDecision
  | [] => none
  | cmdName :: _ => (lookupKey config.commands (commandBase cmdName)).map .warn

/-- Block rules take precedence over warnings. -/
def Config.checkCommandGuardrail (config : Config) (commandLine : List String) :
    Option BlockDecision :=
  (config.block.check commandLine).or (config.warn.check commandLine)

/-- The loop of `checkChainGuardrails` over the command lines that are left. -/
def checkCommandLines (config : Config) : List (List String) → Except String (List String)
  | [] => .ok []
  | commandLine :: rest =>
      match config.checkCommandGuardrail commandLine with
      | some (.block reason) => .error reason
      | some (.warn hint) => (checkCommandLines config rest).map (hint :: ·)
      | none => checkCommandLines config rest

/-- Every command line of a chain, in the order in which it is checked. -/
def ChainNode.commandLines (chain : ChainNode) : List (List String) :=
  (flattenLeaves chain).flatMap fun leaf =>
    leaf.plan.pipelines.flatMap fun pipeline => pipeline.segments.map PipeSegment.command

/-- The warnings for a chain, or the reason why it must not run. -/
def checkChainGuardrails (chain : ChainNode) (config : Config) : Except String (List String) :=
  checkCommandLines config chain.commandLines

end CueShell
