import CueShell.Model.Pipeline
import CueShell.ToMathlib.Text

/-! # Tokens

The tokens of the command language with their byte spans. `try_parse_value` yields Booleans only,
so a parameter value token carries a Boolean; string values reach the parser as words.
-/

namespace CueShell

/-- Entity ID prefix kind. -/
inductive IdKind where
  | job
  | cron
deriving DecidableEq, Repr

/-- Typed value in mode params. -/
inductive Value where
  | str (text : String)
  | bool (value : Bool)
deriving DecidableEq, Repr

inductive Token where
  | colon
  | command (name : String)
  | modeParenOpen
  | modeParenClose
  | paramEq
  | paramValue (value : Bool)
  | comma
  | serialThen
  | serialAlways
  | parallelAll
  | parallelRace
  | jobAnd
  | jobOr
  | pipeStdout
  | pipeAll
  | pipeStderr
  | groupOpen
  | groupClose
  | word (text : String)
  | idRef (kind : IdKind) (number : ℕ)
  | whitespace (text : String)
  | newline
  | eof
deriving DecidableEq, Repr

/-- Byte-offset range in the original input. -/
structure Span where
  start : ℕ
  stop : ℕ
deriving DecidableEq, Repr

structure Spanned where
  token : Token
  span : Span
deriving DecidableEq, Repr

def IdKind.display : IdKind → String
  | .job => "J"
  | .cron => "C"

/-- The text of an ID reference, as commands receive it. -/
def IdKind.idText (kind : IdKind) (number : ℕ) : String := kind.display ++ toString number

namespace Token

def display : Token → String
  | .colon => ":"
  | .command name => name
  | .modeParenOpen | .groupOpen => "("
  | .modeParenClose | .groupClose => ")"
  | .paramEq => "="
  | .paramValue value => if value then "Bool(true)" else "Bool(false)"
  | .comma => ","
  | .serialThen => "->"
  | .serialAlways => "~>"
  | .parallelAll => "|||"
  | .parallelRace => "|?|"
  | .jobAnd => "&&"
  | .jobOr => "||"
  | .pipeStdout => "|>"
  | .pipeAll => "|&>"
  | .pipeStderr => "|!>"
  | .word text => text
  | .idRef kind number => kind.idText number
  | .whitespace text => text
  | .newline => "\\n"
  | .eof => "<EOF>"

def operatorText : Token → String
  | .serialThen => "->"
  | .serialAlways => "~>"
  | .parallelAll => "|||"
  | .parallelRace => "|?|"
  | .jobAnd => "&&"
  | .jobOr => "||"
  | .pipeStdout => "|>"
  | .pipeAll => "|&>"
  | .pipeStderr => "|!>"
  | _ => ""

def isWhitespace : Token → Bool
  | .whitespace _ => true
  | _ => false

end Token

end CueShell
