import CueShell.Model.CommandSpec
import CueShell.Model.Parser.Tokenizer

/-! # The recursive descent parser

The parser works on the tokens of one statement, without blanks and line ends. The unresolved chain
trees of the source are converted one to one into job plans and chain nodes, so the parser of the
model builds these directly. Loops of the source carry the number of remaining tokens as fuel; each
round consumes a token.
-/

namespace CueShell

inductive ParseErrorKind where
  | unknownCommand
  | invalidModeParam
  | unexpectedToken
  | missingArgument
  | invalidIdRef
  | unmatchedParen
  | invalidCronSchedule
deriving DecidableEq, Repr

structure ParseError where
  span : Span
  message : String
  kind : ParseErrorKind
  suggestions : List String
deriving DecidableEq, Repr

/-- Argument types; which variant is valid depends on the command. -/
inductive Argument where
  | chain (node : ChainNode)
  | idRef (kind : IdKind) (number : ℕ)
  | text (text : String)
  | tailRef (kind : IdKind) (number : ℕ) (bytes : Option ℕ)
  | empty
deriving DecidableEq, Repr

/-- One parsed statement. -/
inductive Statement where
  | command (name : String) (modeParams : List (String × Value)) (argument : Argument) (span : Span)
  | bareInput (argument : Argument) (span : Span)
deriving DecidableEq, Repr

structure ScriptItemAst where
  source : String
  statement : Statement
  span : Span
deriving DecidableEq, Repr

/-- Top-level parsed input. -/
inductive Ast where
  | script (items : List ScriptItemAst) (span : Span)
  | single (statement : Statement)
deriving DecidableEq, Repr

/-- The remaining tokens of a statement and the input they come from. -/
structure Parser where
  tokens : List Spanned
  input : List Char
deriving DecidableEq, Repr

namespace Parser

def inputLen (p : Parser) : ℕ := Text.byteLength p.input

def peek (p : Parser) : Token := (p.tokens.head?.map Spanned.token).getD .eof

def peekSpan (p : Parser) : Span :=
  (p.tokens.head?.map Spanned.span).getD ⟨p.inputLen, p.inputLen⟩

def advance (p : Parser) : Parser := { p with tokens := p.tokens.tail }

def atEnd (p : Parser) : Bool := p.peek == .eof

def fail {α : Type} (p : Parser) (kind : ParseErrorKind) (message : String)
    (suggestions : List String) : Except ParseError α :=
  .error ⟨p.peekSpan, message, kind, suggestions⟩

def expect (p : Parser) (expected : Token) : Except ParseError Parser :=
  if p.peek = expected then .ok p.advance
  else p.fail .unexpectedToken ("expected " ++ expected.display ++ ", found " ++ p.peek.display) []

section Chain

/-- The text of a token that counts as a word inside a chain. -/
def wordText : Token → Option String
  | .word text => some text
  | .idRef kind number => some (kind.idText number)
  | .command name => some (":" ++ name)
  | _ => none

/-- The leading words of a token list and the tokens after them. -/
def takeWords : List Spanned → List String × List Spanned
  | [] => ([], [])
  | spanned :: rest =>
      match wordText spanned.token with
      | some text =>
          let (words, after) := takeWords rest
          (text :: words, after)
      | none => ([], spanned :: rest)

def parseAtomWords (p : Parser) : Except ParseError (List String × Parser) :=
  if p.peek = .groupOpen then
    p.fail .unexpectedToken
      ("cannot nest a chain group `(...)` inside a pipeline. Use `|>` for process pipes, " ++
        "`->` / `|||` for job chains.")
      ["use |> for piping between processes", "use -> for serial job chaining"]
  else
    let (words, tokens) := takeWords p.tokens
    .ok (words, { p with tokens })

def pipeOp : Token → Option PipeOp
  | .pipeStdout => some .stdout
  | .pipeAll => some .stdoutStderr
  | .pipeStderr => some .stderrOnly
  | _ => none

def parsePipelineLoop : ℕ → List PipeSegment → List String → Parser →
    Except ParseError (List PipeSegment × Parser)
  | 0, segments, _, p => .ok (segments, p)
  | fuel + 1, segments, words, p =>
      match pipeOp p.peek with
      | none => if words = [] then .ok (segments, p) else .ok (segments ++ [⟨words, none⟩], p)
      | some op => do
          let (next, p) ← p.advance.parseAtomWords
          parsePipelineLoop fuel (segments ++ [⟨words, some op⟩]) next p

/-- pipeline = atom (pipe_op atom)* -/
def parsePipeline (p : Parser) : Except ParseError (JobPlan × Parser) := do
  let (words, p) ← p.parseAtomWords
  let (segments, p) ← parsePipelineLoop (p.tokens.length + 1) [] words p
  if segments = [] then p.fail .missingArgument "expected command" []
  else .ok (.pipeline ⟨segments⟩, p)

/-- The loop of a left-associative level: operands separated by the operators of that level. -/
def leftAssocLoop {α Op : Type} (opOf : Token → Option Op)
    (operand : Parser → Except ParseError (α × Parser)) (combine : α → Op → α → α) :
    ℕ → α → Parser → Except ParseError (α × Parser)
  | 0, left, p => .ok (left, p)
  | fuel + 1, left, p =>
      match opOf p.peek with
      | none => .ok (left, p)
      | some op => do
          let (right, p) ← operand p.advance
          leftAssocLoop opOf operand combine fuel (combine left op right) p

/-- One level of the grammar: `operand (op operand)*`, nested to the left. -/
def parseLeftAssoc {α Op : Type} (opOf : Token → Option Op)
    (operand : Parser → Except ParseError (α × Parser)) (combine : α → Op → α → α) (p : Parser) :
    Except ParseError (α × Parser) := do
  let (left, p) ← operand p
  leftAssocLoop opOf operand combine (p.tokens.length + 1) left p

/-- `&&` and `||`. -/
inductive LogicOp where
  | and
  | or
deriving DecidableEq, Repr

def logicOp : Token → Option LogicOp
  | .jobAnd => some .and
  | .jobOr => some .or
  | _ => none

def parallelOp : Token → Option ParallelOp
  | .parallelAll => some .all
  | .parallelRace => some .race
  | _ => none

def serialOp : Token → Option SerialOp
  | .serialThen => some .andThen
  | .serialAlways => some .always
  | _ => none

def combineJobs (left : JobPlan) (op : LogicOp) (right : JobPlan) : JobPlan :=
  match op with
  | .and => .and left right
  | .or => .or left right

/-- job_expr = pipeline (("&&" | "||") pipeline)* -/
def parseJobExpr (p : Parser) : Except ParseError (ChainNode × Parser) := do
  let (plan, p) ← p.parseLeftAssoc logicOp parsePipeline combineJobs
  .ok (.leaf plan, p)

/-- parallel = job_expr (parallel_op job_expr)* -/
def parseParallel (p : Parser) : Except ParseError (ChainNode × Parser) :=
  p.parseLeftAssoc parallelOp parseJobExpr ChainNode.parallel

/-- chain = parallel (serial_op parallel)* -/
def parseChain (p : Parser) : Except ParseError (ChainNode × Parser) :=
  p.parseLeftAssoc serialOp parseParallel ChainNode.serial

end Chain

section Command

def modeParamValueKindName : ModeParamValueKind → String
  | .string => "a string"
  | .bool => "a boolean"

def validateModeParamValue (spec : ModeParamSpec) (value : Value) (span : Span) :
    Except ParseError Unit :=
  match spec.valueKind, value with
  | .string, .str _ => .ok ()
  | .bool, .bool _ => .ok ()
  | kind, _ =>
      .error ⟨span, "mode parameter `" ++ spec.name ++ "` expects " ++
        modeParamValueKindName kind ++ " (e.g. " ++ spec.valueHint ++ ")",
        .invalidModeParam, [spec.name ++ "=" ++ spec.valueHint]⟩

def parseParamValue (p : Parser) : Except ParseError (Value × Parser) :=
  match p.peek with
  | .paramValue value => .ok (.bool value, p.advance)
  | .word text => .ok (.str text, p.advance)
  | token => p.fail .invalidModeParam ("expected parameter value, found " ++ token.display) []

/-- A `need.<X>` key: the suffix is left to the resource providers. -/
def parseNeedParam (p : Parser) (command key suffix : String) (keySpan : Span) :
    Except ParseError ((String × Value) × Parser) :=
  if modeParamSpecForCommand command "need.<resource>" = none then
    .error ⟨keySpan, "mode parameter `" ++ key ++ "` is not supported by `:" ++ command ++ "`",
      .invalidModeParam, []⟩
  else if suffix = "" then
    .error ⟨keySpan, "`need.` requires a key suffix (e.g. `need.gpu_mem=24GiB`)",
      .invalidModeParam, ["need.gpu=1", "need.gpu_mem=24GiB"]⟩
  else do
    let p ← p.expect .paramEq
    let valueSpan := p.peekSpan
    let (value, p) ← p.parseParamValue
    match value with
    | .str _ => .ok ((key, value), p)
    | .bool _ =>
        .error ⟨valueSpan, "resource need `" ++ key ++
          "` expects a string quantity (e.g. 1 or 24GiB), got a boolean",
          .invalidModeParam, [key ++ "=1", key ++ "=24GiB"]⟩

/-- A key of the static parameter table. -/
def parseTableParam (p : Parser) (command key : String) (keySpan : Span) :
    Except ParseError ((String × Value) × Parser) :=
  match modeParamSpec key with
  | none => .error ⟨keySpan, "unknown mode parameter `" ++ key ++ "`", .invalidModeParam, []⟩
  | some _ =>
      match modeParamSpecForCommand command key with
      | none =>
          .error ⟨keySpan, "mode parameter `" ++ key ++ "` is not supported by `:" ++ command ++ "`",
            .invalidModeParam, []⟩
      | some spec => do
          let p ← p.expect .paramEq
          let valueSpan := p.peekSpan
          let (value, p) ← p.parseParamValue
          validateModeParamValue spec value valueSpan
          .ok ((key, value), p)

def parseModeParams (command : String) : ℕ → List (String × Value) → Parser →
    Except ParseError (List (String × Value) × Parser)
  | 0, params, p => .ok (params, p)
  | fuel + 1, params, p =>
      match p.peek with
      | .modeParenClose => .ok (params, p.advance)
      | .eof => p.fail .unmatchedParen "unterminated mode params" []
      | .comma => parseModeParams command fuel params p.advance
      | .word key => do
          let keySpan := p.peekSpan
          let (param, p) ←
            match Text.stripPrefix "need.".toList key.toList with
            | some suffix => p.advance.parseNeedParam command key (String.ofList suffix) keySpan
            | none => p.advance.parseTableParam command key keySpan
          parseModeParams command fuel (params ++ [param]) p
      | token => p.fail .invalidModeParam ("expected parameter name, found " ++ token.display) []

def validateIdKind (command : String) (allowed : CommandIdKind) (actual : IdKind) (span : Span) :
    Except ParseError Unit :=
  let accepted := match actual with
    | .job => allowed.acceptsJob
    | .cron => allowed.acceptsCron
  if accepted then .ok ()
  else .error ⟨span, ":" ++ command ++ " expects " ++ allowed.display ++ " ID, got " ++ actual.display,
    .invalidIdRef, [":" ++ command ++ " " ++ allowed.firstExample]⟩

def validateTextTarget (command : String) (allowed : CommandIdKind) (target : Token) (span : Span) :
    Except ParseError Unit :=
  let suggestion := ":" ++ command ++ " " ++ allowed.firstExample ++ " your input"
  match target with
  | .idRef kind _ => validateIdKind command allowed kind span
  | .eof =>
      .error ⟨span, "`:" ++ command ++ "` requires a target and input", .missingArgument, [suggestion]⟩
  | _ =>
      .error ⟨span, ":" ++ command ++ " requires a target ID (" ++ allowed.display ++ ")",
        .invalidIdRef, [suggestion]⟩

/-- All remaining tokens as a single text string. -/
def consumeRemainingText (p : Parser) : String × Parser :=
  (" ".intercalate (p.tokens.map fun spanned => spanned.token.display), { p with tokens := [] })

/-- The remaining input as raw text. -/
def consumeRemainingRawText (p : Parser) : String × Parser :=
  match p.tokens.head?, p.tokens.getLast? with
  | some first, some last =>
      (String.ofList (Text.slice p.input first.span.start last.span.stop), { p with tokens := [] })
  | _, _ => ("", p)

/-- A decimal `usize`, with the optional plus sign of the standard number parser. -/
def parseUsize (text : List Char) : Option ℕ :=
  match text with
  | '+' :: digits => Text.parseDigits (2 ^ 64) digits
  | digits => Text.parseDigits (2 ^ 64) digits

def requireId (p : Parser) (name : String) (allowed : CommandIdKind) (suggestions : List String) :
    Except ParseError ((IdKind × ℕ) × Parser) :=
  match p.peek with
  | .idRef kind number => do
      validateIdKind name allowed kind p.peekSpan
      .ok ((kind, number), p.advance)
  | _ => p.fail .invalidIdRef (":" ++ name ++ " requires an ID (" ++ allowed.display ++ ")") suggestions

def parseArgumentForCommand (p : Parser) (name : String) (spec : CommandSpec) :
    Except ParseError (Argument × Parser) :=
  match spec.argKind with
  | .chain =>
      if p.atEnd then
        p.fail .missingArgument ("`:" ++ name ++ "` requires a command") [":" ++ name ++ " cargo test"]
      else do
        let (chain, p) ← p.parseChain
        .ok (.chain chain, p)
  | .cron =>
      if p.atEnd then
        p.fail .missingArgument ("`:" ++ name ++ "` requires a schedule expression")
          [":cron every 5m cargo test"]
      else do
        let (chain, p) ← p.parseChain
        .ok (.chain chain, p)
  | .tail allowed => do
      let example' := ":" ++ name ++ " " ++ allowed.firstExample
      let ((kind, number), p) ← p.requireId name allowed [example', example' ++ " 1024"]
      match p.peek with
      | .word text =>
          match parseUsize text.toList with
          | some bytes => .ok (.tailRef kind number (some bytes), p.advance)
          | none => .ok (.tailRef kind number none, p)
      | _ => .ok (.tailRef kind number none, p)
  | .id allowed => do
      let ((kind, number), p) ← p.requireId name allowed [":" ++ name ++ " " ++ allowed.firstExample]
      .ok (.idRef kind number, p)
  | .text =>
      let (text, p) := p.consumeRemainingRawText
      if text = "" then
        let message := if name = "send" then "`:send` requires a target and input"
          else ":" ++ name ++ " requires an argument"
        p.fail .missingArgument message []
      else .ok (.text text, p)
  | .targetText allowed => do
      validateTextTarget name allowed p.peek p.peekSpan
      let (text, p) := p.consumeRemainingRawText
      if text = "" then
        p.fail .missingArgument ("`:" ++ name ++ "` requires a target and input")
          [":" ++ name ++ " " ++ allowed.firstExample ++ " your input"]
      else .ok (.text text, p)
  | .optionalId allowed =>
      match p.peek with
      | .idRef kind number => do
          validateIdKind name allowed kind p.peekSpan
          .ok (.idRef kind number, p.advance)
      | _ => .ok (.empty, p)
  | .empty => .ok (.empty, p)
  | .optionalText =>
      let (text, p) := p.consumeRemainingText
      if text = "" then .ok (.empty, p) else .ok (.text text, p)

def commandSpecOrError (p : Parser) (name : String) : Except ParseError CommandSpec :=
  match commandSpec name with
  | some spec => .ok spec
  | none => p.fail .unknownCommand ("unknown command `:" ++ name ++ "`")
      ((commandSuggestions name).map (":" ++ ·))

def parseCommand (p : Parser) (name : String) (spanStart : ℕ) :
    Except ParseError (Statement × Parser) := do
  let p := p.advance
  let spec ← p.commandSpecOrError name
  let (modeParams, p) ←
    if p.peek = .modeParenOpen then
      if spec.acceptsModeParams then p.advance.parseModeParams name (p.tokens.length + 1) []
      else p.fail .invalidModeParam ("`:" ++ name ++ "` does not accept mode params") [spec.usage]
    else .ok ([], p)
  let (argument, p) ← p.parseArgumentForCommand name spec
  .ok (.command name modeParams argument ⟨spanStart, p.peekSpan.start⟩, p)

def parseStatement (p : Parser) : Except ParseError (Statement × Parser) :=
  let spanStart := p.peekSpan.start
  match p.peek with
  | .command name => p.parseCommand name spanStart
  | .eof => .ok (.bareInput .empty ⟨spanStart, spanStart⟩, p)
  | _ => do
      let (chain, p) ← p.parseChain
      .ok (.bareInput (.chain chain) ⟨spanStart, p.peekSpan.stop⟩, p)

def parseSingleStatement (p : Parser) : Except ParseError Statement := do
  let (statement, p) ← p.parseStatement
  if p.atEnd then .ok statement
  else p.fail .unexpectedToken ("unexpected token " ++ p.peek.display) []

end Command

end Parser

end CueShell
