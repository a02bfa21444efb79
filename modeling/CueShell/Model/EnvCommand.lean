import CueShell.Model.Parser.Resolver

/-! # The text of an env command

`:env` receives its argument as one text, which the handler reads again.
-/

namespace CueShell

inductive EnvCommand where
  | show
  | set (assignments : List String)
  | unset (keys : List String)
deriving DecidableEq, Repr

def TokenizeError.display (error : TokenizeError) : String :=
  "tokenizer error at byte " ++ toString error.pos ++ ": " ++ error.message

/-- The loop of `tokenize_words` over the tokens. -/
def collectWords : List Spanned → Except String (List String)
  | [] => .ok []
  | spanned :: rest =>
      match spanned.token with
      | .word word | .command word => (collectWords rest).map (word :: ·)
      | .idRef kind number => (collectWords rest).map (kind.idText number :: ·)
      | .whitespace _ | .eof => collectWords rest
      | other => .error ("unsupported token `" ++ other.display ++ "` in `:env` command")

def tokenizeWords (input : String) : Except String (List String) :=
  match Tokenizer.tokenize input with
  | .error error => .error error.display
  | .ok tokens => collectWords tokens

/-- The words of an env command, the first of which is the verb. -/
def envCommandOfWords : List String → Except String EnvCommand
  | [] => .ok .show
  | verb :: rest =>
      if verb = "set" then
        if rest = [] then .error "`:env set` expects at least one KEY=VALUE assignment" else .ok (.set rest)
      else if verb = "unset" then
        if rest = [] then .error "`:env unset` expects at least one variable name"
        else
          match rest.find? fun key => key = "" ∨ '=' ∈ key.toList with
          | some key => .error ("`:env unset` expects variable names, got `" ++ key ++ "`")
          | none => .ok (.unset rest)
      else .error ("unsupported `:env` subcommand `" ++ verb ++ "`")

def parseEnvCommand (subcommand : Option String) : Except String EnvCommand :=
  match subcommand with
  | none => .ok .show
  | some subcommand =>
      let trimmed := String.ofList (Text.trim subcommand.toList)
      if trimmed = "" ∨ trimmed = "list" then .ok .show
      else
        match tokenizeWords trimmed with
        | .error error => .error error
        | .ok words => envCommandOfWords words

/-- What the handler of `:env` reads from an input, if the input is an env command. -/
def readEnvCommand (input : String) (mode : Mode) : Option (Except String EnvCommand) :=
  match parseCommand input mode with
  | some (.ok (.single (.env subcommand))) => some (parseEnvCommand subcommand)
  | _ => none

end CueShell
