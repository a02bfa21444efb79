import CueShell.Model.Parser.ByteTokenizer
import CueShell.Model.Parser.Statements

/-! # The parser by token positions

The parser as the source has it: a position in the tokens of a statement, and slices of the input by the
spans of tokens. An index out of range, a slice off a character boundary and an `unreachable!` panic; a
loop that does not end counts as a panic too. The pure helpers of the parser are shared with the parser
that consumes a list of tokens.
-/

namespace CueShell

structure IndexParser where
  tokens : List Spanned
  pos : ℕ
  input : List Char
deriving DecidableEq, Repr

namespace IndexParser

def inputLen (p : IndexParser) : ℕ := Text.byteLength p.input

def peek (p : IndexParser) : Token := (p.tokens[p.pos]?.map Spanned.token).getD .eof

def peekSpan (p : IndexParser) : Span := (p.tokens[p.pos]?.map Spanned.span).getD ⟨p.inputLen, p.inputLen⟩

/-- `&self.tokens[self.pos]`, and the position behind it. -/
def advance (p : IndexParser) : Attempt ParseError (Spanned × IndexParser) := do
  let spanned ← Attempt.ofOption p.tokens[p.pos]?
  pure (spanned, { p with pos := p.pos + 1 })

def atEnd (p : IndexParser) : Bool := p.peek == .eof

def fail {α : Type} (p : IndexParser) (kind : ParseErrorKind) (message : String) (suggestions : List String) :
    Attempt ParseError α :=
  throw ⟨p.peekSpan, message, kind, suggestions⟩

def expect (p : IndexParser) (expected : Token) : Attempt ParseError (Spanned × IndexParser) :=
  if p.peek = expected then p.advance
  else p.fail .unexpectedToken ("expected " ++ expected.display ++ ", found " ++ p.peek.display) []

section Chain

open CueShell.Parser (wordText pipeOp LogicOp logicOp parallelOp serialOp combineJobs)

def atomWordsLoop : ℕ → List String → IndexParser → Attempt ParseError (List String × IndexParser)
  | 0, _, _ => Attempt.panic
  | fuel + 1, words, p =>
      match wordText p.peek with
      | some text => do
          let (_, p) ← p.advance
          atomWordsLoop fuel (words ++ [text]) p
      | none => pure (words, p)

/-- More rounds than a loop makes that consumes a token in every round. -/
def rounds (p : IndexParser) : ℕ := p.tokens.length - p.pos + 1

def parseAtomWords (p : IndexParser) : Attempt ParseError (List String × IndexParser) :=
  if p.peek = .groupOpen then do
    let _ ← p.advance
    p.fail .unexpectedToken
      ("cannot nest a chain group `(...)` inside a pipeline. Use `|>` for process pipes, " ++
        "`->` / `|||` for job chains.")
      ["use |> for piping between processes", "use -> for serial job chaining"]
  else atomWordsLoop p.rounds [] p

def parsePipelineLoop : ℕ → List PipeSegment → List String → IndexParser →
    Attempt ParseError (List PipeSegment × IndexParser)
  | 0, _, _, _ => Attempt.panic
  | fuel + 1, segments, words, p =>
      match pipeOp p.peek with
      | none => if words = [] then pure (segments, p) else pure (segments ++ [⟨words, none⟩], p)
      | some op => do
          let (_, p) ← p.advance
          let (next, p) ← p.parseAtomWords
          parsePipelineLoop fuel (segments ++ [⟨words, some op⟩]) next p

def parsePipeline (p : IndexParser) : Attempt ParseError (JobPlan × IndexParser) := do
  let (words, p) ← p.parseAtomWords
  let (segments, p) ← parsePipelineLoop p.rounds [] words p
  if segments = [] then p.fail .missingArgument "expected command" []
  else pure (.pipeline ⟨segments⟩, p)

def leftAssocLoop {α Op : Type} (opOf : Token → Option Op)
    (operand : IndexParser → Attempt ParseError (α × IndexParser)) (combine : α → Op → α → α) :
    ℕ → α → IndexParser → Attempt ParseError (α × IndexParser)
  | 0, _, _ => Attempt.panic
  | fuel + 1, left, p =>
      match opOf p.peek with
      | none => pure (left, p)
      | some op => do
          let (_, p) ← p.advance
          let (right, p) ← operand p
          leftAssocLoop opOf operand combine fuel (combine left op right) p

def parseLeftAssoc {α Op : Type} (opOf : Token → Option Op)
    (operand : IndexParser → Attempt ParseError (α × IndexParser)) (combine : α → Op → α → α)
    (p : IndexParser) : Attempt ParseError (α × IndexParser) := do
  let (left, p) ← operand p
  leftAssocLoop opOf operand combine p.rounds left p

def parseJobExpr (p : IndexParser) : Attempt ParseError (ChainNode × IndexParser) := do
  let (plan, p) ← p.parseLeftAssoc logicOp parsePipeline combineJobs
  pure (.leaf plan, p)

def parseParallel (p : IndexParser) : Attempt ParseError (ChainNode × IndexParser) :=
  p.parseLeftAssoc parallelOp parseJobExpr ChainNode.parallel

def parseChain (p : IndexParser) : Attempt ParseError (ChainNode × IndexParser) :=
  p.parseLeftAssoc serialOp parseParallel ChainNode.serial

end Chain

section Command

open CueShell.Parser (validateModeParamValue validateIdKind validateTextTarget parseUsize)

def parseParamValue (p : IndexParser) : Attempt ParseError (Value × IndexParser) :=
  match p.peek with
  | .paramValue value => do
      let (_, p) ← p.advance
      pure (.bool value, p)
  | .word text => do
      let (_, p) ← p.advance
      pure (.str text, p)
  | token => p.fail .invalidModeParam ("expected parameter value, found " ++ token.display) []

def parseNeedParam (p : IndexParser) (command key suffix : String) (keySpan : Span) :
    Attempt ParseError ((String × Value) × IndexParser) :=
  if modeParamSpecForCommand command "need.<resource>" = none then
    throw ⟨keySpan, "mode parameter `" ++ key ++ "` is not supported by `:" ++ command ++ "`",
      .invalidModeParam, []⟩
  else if suffix = "" then
    throw ⟨keySpan, "`need.` requires a key suffix (e.g. `need.gpu_mem=24GiB`)",
      .invalidModeParam, ["need.gpu=1", "need.gpu_mem=24GiB"]⟩
  else do
    let (_, p) ← p.expect .paramEq
    let valueSpan := p.peekSpan
    let (value, p) ← p.parseParamValue
    match value with
    | .str _ => pure ((key, value), p)
    | .bool _ =>
        throw ⟨valueSpan, "resource need `" ++ key ++
          "` expects a string quantity (e.g. 1 or 24GiB), got a boolean",
          .invalidModeParam, [key ++ "=1", key ++ "=24GiB"]⟩

def parseTableParam (p : IndexParser) (command key : String) (keySpan : Span) :
    Attempt ParseError ((String × Value) × IndexParser) :=
  match modeParamSpec key with
  | none => throw ⟨keySpan, "unknown mode parameter `" ++ key ++ "`", .invalidModeParam, []⟩
  | some _ =>
      match modeParamSpecForCommand command key with
      | none =>
          throw ⟨keySpan, "mode parameter `" ++ key ++ "` is not supported by `:" ++ command ++ "`",
            .invalidModeParam, []⟩
      | some spec => do
          let (_, p) ← p.expect .paramEq
          let valueSpan := p.peekSpan
          let (value, p) ← p.parseParamValue
          Attempt.ofExcept (validateModeParamValue spec value valueSpan)
          pure ((key, value), p)

/-- `self.tokens[self.pos - 1].span`. -/
def lastSpan (p : IndexParser) : Attempt ParseError Span :=
  if p.pos = 0 then Attempt.panic
  else do
    let spanned ← Attempt.ofOption p.tokens[p.pos - 1]?
    pure spanned.span

/-- One `key=value` parameter, with the key behind the position. -/
def parseParam (p : IndexParser) (command key : String) : Attempt ParseError ((String × Value) × IndexParser) := do
  let keySpan ← p.lastSpan
  match Text.stripPrefix "need.".toList key.toList with
  | some suffix => p.parseNeedParam command key (String.ofList suffix) keySpan
  | none => p.parseTableParam command key keySpan

def parseModeParams (command : String) : ℕ → List (String × Value) → IndexParser →
    Attempt ParseError (List (String × Value) × IndexParser)
  | 0, _, _ => Attempt.panic
  | fuel + 1, params, p =>
      match p.peek with
      | .modeParenClose => do
          let (_, p) ← p.advance
          pure (params, p)
      | .eof => p.fail .unmatchedParen "unterminated mode params" []
      | .comma => do
          let (_, p) ← p.advance
          parseModeParams command fuel params p
      | .word key => do
          let (_, p) ← p.advance
          let (param, p) ← p.parseParam command key
          parseModeParams command fuel (params ++ [param]) p
      | token => p.fail .invalidModeParam ("expected parameter name, found " ++ token.display) []

/-- Advance to the end, collecting the tokens. -/
def drainLoop : ℕ → List Token → IndexParser → Attempt ParseError (List Token × IndexParser)
  | 0, _, _ => Attempt.panic
  | fuel + 1, passed, p =>
      if p.atEnd then pure (passed, p)
      else do
        let (spanned, p) ← p.advance
        drainLoop fuel (passed ++ [spanned.token]) p

def consumeRemainingText (p : IndexParser) : Attempt ParseError (String × IndexParser) := do
  let (passed, p) ← drainLoop p.rounds [] p
  pure (" ".intercalate (passed.map Token.display), p)

def consumeRemainingRawText (p : IndexParser) : Attempt ParseError (String × IndexParser) :=
  if p.atEnd then pure ("", p)
  else do
    let first ← Attempt.ofOption p.tokens[p.pos]?
    let stop := (p.tokens.getLast?.map fun spanned => spanned.span.stop).getD p.inputLen
    let (_, after) ← drainLoop p.rounds [] p
    let text ← strSlice p.input first.span.start stop
    pure (String.ofList text, after)

def requireId (p : IndexParser) (name : String) (allowed : CommandIdKind) (suggestions : List String) :
    Attempt ParseError ((IdKind × ℕ) × IndexParser) :=
  match p.peek with
  | .idRef kind number => do
      Attempt.ofExcept (validateIdKind name allowed kind p.peekSpan)
      let (_, p) ← p.advance
      pure ((kind, number), p)
  | _ => p.fail .invalidIdRef (":" ++ name ++ " requires an ID (" ++ allowed.display ++ ")") suggestions

/-- The optional byte count behind the ID of `:tail`. -/
def parseTailBytes (p : IndexParser) : Attempt ParseError (Option ℕ × IndexParser) :=
  match p.peek with
  | .word text =>
      match parseUsize text.toList with
      | some bytes => do
          let (_, p) ← p.advance
          pure (some bytes, p)
      | none => pure (none, p)
  | _ => pure (none, p)

/-- Raw text that must not be empty. -/
def requireText (p : IndexParser) (message : String) (suggestions : List String) :
    Attempt ParseError (Argument × IndexParser) := do
  let (text, p) ← p.consumeRemainingRawText
  if text = "" then p.fail .missingArgument message suggestions else pure (.text text, p)

def parseChainArgument (p : IndexParser) : Attempt ParseError (Argument × IndexParser) := do
  let (chain, p) ← p.parseChain
  pure (.chain chain, p)

def parseArgumentForCommand (p : IndexParser) (name : String) (spec : CommandSpec) :
    Attempt ParseError (Argument × IndexParser) :=
  match spec.argKind with
  | .chain =>
      if p.atEnd then
        p.fail .missingArgument ("`:" ++ name ++ "` requires a command") [":" ++ name ++ " cargo test"]
      else p.parseChainArgument
  | .cron =>
      if p.atEnd then
        p.fail .missingArgument ("`:" ++ name ++ "` requires a schedule expression")
          [":cron every 5m cargo test"]
      else p.parseChainArgument
  | .tail allowed => do
      let example' := ":" ++ name ++ " " ++ allowed.firstExample
      let ((kind, number), p) ← p.requireId name allowed [example', example' ++ " 1024"]
      let (bytes, p) ← p.parseTailBytes
      pure (.tailRef kind number bytes, p)
  | .id allowed => do
      let ((kind, number), p) ← p.requireId name allowed [":" ++ name ++ " " ++ allowed.firstExample]
      pure (.idRef kind number, p)
  | .text =>
      p.requireText (if name = "send" then "`:send` requires a target and input"
        else ":" ++ name ++ " requires an argument") []
  | .targetText allowed => do
      Attempt.ofExcept (validateTextTarget name allowed p.peek p.peekSpan)
      p.requireText ("`:" ++ name ++ "` requires a target and input")
        [":" ++ name ++ " " ++ allowed.firstExample ++ " your input"]
  | .optionalId allowed =>
      match p.peek with
      | .idRef kind number => do
          Attempt.ofExcept (validateIdKind name allowed kind p.peekSpan)
          let (_, p) ← p.advance
          pure (.idRef kind number, p)
      | _ => pure (.empty, p)
  | .empty => pure (.empty, p)
  | .optionalText => do
      let (text, p) ← p.consumeRemainingText
      if text = "" then pure (.empty, p) else pure (.text text, p)

/-- The cells of one row of the edit-distance table, from column `j` on. -/
def editRowLoop (c : Char) (b : List Char) (above : List ℕ) : ℕ → ℕ → List ℕ → Attempt ParseError (List ℕ)
  | 0, _, row => pure row
  | columns + 1, j, row => do
      let d ← Attempt.ofOption b[j - 1]?
      let up ← Attempt.ofOption above[j]?
      let left ← Attempt.ofOption row[j - 1]?
      let diagonal ← Attempt.ofOption above[j - 1]?
      if j < row.length then
        let cost := if c = d then 0 else 1
        editRowLoop c b above columns (j + 1) (row.set j (min (min (up + 1) (left + 1)) (diagonal + cost)))
      else Attempt.panic

/-- The rows of the edit-distance table, from row `i` on. -/
def editTableLoop (a b : List Char) : ℕ → ℕ → List (List ℕ) → Attempt ParseError (List (List ℕ))
  | 0, _, dp => pure dp
  | rows + 1, i, dp => do
      let c ← Attempt.ofOption a[i - 1]?
      let above ← Attempt.ofOption dp[i - 1]?
      let row ← Attempt.ofOption dp[i]?
      let row ← editRowLoop c b above b.length 1 row
      editTableLoop a b rows (i + 1) (dp.set i row)

/-- `edit_distance` over its table. -/
def editDistance (first second : String) : Attempt ParseError ℕ := do
  let a := first.toList
  let b := second.toList
  let start := List.range (b.length + 1) ::
    (List.range' 1 a.length).map fun i => i :: List.replicate b.length 0
  let dp ← editTableLoop a b a.length 1 start
  let row ← Attempt.ofOption dp[a.length]?
  Attempt.ofOption row[b.length]?

/-- The commands that start with the first byte of the name, or are near it. -/
def nearCommands (name : String) (first : List Char) : List CommandSpec → Attempt ParseError (List String)
  | [] => pure []
  | spec :: specs => do
      let distance ← editDistance name spec.name
      let others ← nearCommands name first specs
      pure (if first.isPrefixOf spec.name.toList || distance ≤ 2 then spec.name :: others else others)

/-- `command_suggestions` slices the name behind its first byte. -/
def commandSuggestions (name : String) : Attempt ParseError (List String) := do
  let first ← strSlice name.toList 0 (min 1 (Text.byteLength name.toList))
  nearCommands name first commandSpecs

def commandSpecOrError (p : IndexParser) (name : String) : Attempt ParseError CommandSpec :=
  match commandSpec name with
  | some spec => pure spec
  | none => do
      let suggestions ← commandSuggestions name
      p.fail .unknownCommand ("unknown command `:" ++ name ++ "`") (suggestions.map (":" ++ ·))

/-- The mode parameters in parentheses, if there are any. -/
def parseOptionalParams (p : IndexParser) (name : String) (spec : CommandSpec) :
    Attempt ParseError (List (String × Value) × IndexParser) :=
  if p.peek = .modeParenOpen then
    if spec.acceptsModeParams then do
      let (_, inside) ← p.advance
      inside.parseModeParams name p.rounds []
    else p.fail .invalidModeParam ("`:" ++ name ++ "` does not accept mode params") [spec.usage]
  else pure ([], p)

def parseCommand (p : IndexParser) (spanStart : ℕ) : Attempt ParseError (Statement × IndexParser) := do
  let (spanned, p) ← p.advance
  match spanned.token with
  | .command name => do
      let spec ← p.commandSpecOrError name
      let (modeParams, p) ← p.parseOptionalParams name spec
      let (argument, p) ← p.parseArgumentForCommand name spec
      pure (.command name modeParams argument ⟨spanStart, p.peekSpan.start⟩, p)
  | _ => Attempt.panic

def parseStatement (p : IndexParser) : Attempt ParseError (Statement × IndexParser) :=
  let spanStart := p.peekSpan.start
  match p.peek with
  | .command _ => p.parseCommand spanStart
  | .eof => pure (.bareInput .empty ⟨spanStart, spanStart⟩, p)
  | _ => do
      let (chain, p) ← p.parseChain
      pure (.bareInput (.chain chain) ⟨spanStart, p.peekSpan.stop⟩, p)

def parseSingleStatement (p : IndexParser) : Attempt ParseError Statement := do
  let (statement, p) ← p.parseStatement
  if p.atEnd then pure statement
  else p.fail .unexpectedToken ("unexpected token " ++ p.peek.display) []

end Command

end IndexParser

end CueShell
