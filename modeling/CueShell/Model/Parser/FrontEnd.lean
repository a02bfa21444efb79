import CueShell.Model.Parser.IndexParser
import CueShell.Model.Parser.Resolver

/-! # The front end by positions

From the text of a request to a resolved command as the source computes it, with every index and every
slice it makes: the tokenizer over bytes, the split into statements, the parser by token positions and
the resolver. The highlighter of the input line uses the tokenizer alone.
-/

namespace CueShell

/-- The text of a text argument. -/
def Argument.rawText : Argument → List Char
  | .text raw => raw.toList
  | _ => []

namespace FrontEnd

section Statements

/-- `&tokens[newline_index + 1..]`. -/
def tokensBehind (tokens : List Spanned) (index : ℕ) : Attempt ParseError (List Spanned) :=
  if index + 1 ≤ tokens.length then pure (tokens.drop (index + 1)) else Attempt.panic

def shouldSplitOnNewline (tokens : List Spanned) (newlineIndex depth : ℕ) (current : List Spanned) :
    Attempt ParseError Bool :=
  if current = [] then pure true
  else if 0 < depth then pure false
  else if (current.getLast?.any fun spanned => tokenRequiresContinuation spanned.token) then pure false
  else do
    let rest ← tokensBehind tokens newlineIndex
    pure (!(nextSignificant rest).any tokenRequiresContinuation)

def pushScriptChunk (input : List Char) (chunks : List ScriptChunk) (current : List Spanned) :
    Attempt ParseError (List ScriptChunk) :=
  match current.head?, current.getLast? with
  | some first, some last => do
      let text ← strSlice input first.span.start last.span.stop
      let source := Text.trim text
      if source = [] then pure chunks
      else pure (chunks ++ [⟨current, String.ofList source, ⟨first.span.start, last.span.stop⟩⟩])
  | _, _ => pure chunks

def splitLoop (tokens : List Spanned) (input : List Char) : List ScriptChunk → List Spanned → ℕ → ℕ →
    List Spanned → Attempt ParseError (List ScriptChunk)
  | chunks, current, _, _, [] => pushScriptChunk input chunks current
  | chunks, current, depth, index, spanned :: rest =>
      match spanned.token with
      | .eof => pushScriptChunk input chunks current
      | .modeParenOpen | .groupOpen =>
          splitLoop tokens input chunks (current ++ [spanned]) (depth + 1) (index + 1) rest
      | .modeParenClose | .groupClose =>
          splitLoop tokens input chunks (current ++ [spanned]) (depth - 1) (index + 1) rest
      | .newline => do
          let split ← shouldSplitOnNewline tokens index depth current
          if split then do
            let chunks ← pushScriptChunk input chunks current
            splitLoop tokens input chunks [] depth (index + 1) rest
          else splitLoop tokens input chunks current depth (index + 1) rest
      | _ => splitLoop tokens input chunks (current ++ [spanned]) depth (index + 1) rest

def splitTopLevelStatements (tokens : List Spanned) (input : List Char) :
    Attempt ParseError (List ScriptChunk) :=
  splitLoop tokens input [] [] 0 0 tokens

def tokenizeForParser (input : String) : Attempt ParseError (List Spanned) :=
  match (ByteTokenizer.tokenize input).run with
  | none => Attempt.panic
  | some (.error e) => throw ⟨⟨e.pos, e.pos + 1⟩, e.message, .unexpectedToken, []⟩
  | some (.ok tokens) => pure (tokens.filter fun spanned => !spanned.token.isWhitespace)

def parseChunk (input : List Char) (chunk : ScriptChunk) : Attempt ParseError ScriptItemAst := do
  let statement ← (⟨chunk.tokens, 0, input⟩ : IndexParser).parseSingleStatement
  pure ⟨chunk.source, statement, chunk.span⟩

def parseChunks (input : List Char) : List ScriptChunk → Attempt ParseError (List ScriptItemAst)
  | [] => pure []
  | chunk :: rest => do
      let item ← parseChunk input chunk
      let items ← parseChunks input rest
      pure (item :: items)

def parseTokens (tokens : List Spanned) (input : List Char) : Attempt ParseError Ast := do
  let chunks ← splitTopLevelStatements tokens input
  match chunks with
  | [] => pure (.single (.bareInput .empty ⟨0, 0⟩))
  | [chunk] => do
      let statement ← (⟨chunk.tokens, 0, input⟩ : IndexParser).parseSingleStatement
      pure (.single statement)
  | chunks => do
      let items ← parseChunks input chunks
      pure (.script items (chunksSpan chunks))

def parse (input : String) : Attempt ParseError Ast := do
  let tokens ← tokenizeForParser input
  parseTokens tokens input.toList

/-- The byte position a comment starts at. -/
def commentIndex : CommentScan → ℕ → List Char → Option ℕ
  | _, _, [] => none
  | scan, index, c :: rest =>
      match scan.step c with
      | none => some index
      | some scan => commentIndex scan (index + c.utf8Size) rest

def stripFileScriptComment (line : List Char) : Attempt ParseError (List Char) :=
  match commentIndex {} 0 line with
  | some index => do
      let front ← strSlice line 0 index
      pure (Text.trimEnd front)
  | none => pure line

def normalizeLine (index : ℕ) (line : List Char) : Attempt ParseError (List Char) :=
  let body := (Text.stripSuffix ['\r'] line).getD line
  if index = 0 ∧ (['#', '!'].isPrefixOf body) then pure [] else stripFileScriptComment body

def normalizeLines : ℕ → List (List Char × Bool) → Attempt ParseError (List Char)
  | _, [] => pure []
  | index, (line, ended) :: lines => do
      let body ← normalizeLine index line
      let rest ← normalizeLines (index + 1) lines
      pure (body ++ (if ended then ['\n'] else []) ++ rest)

def normalizeFileScript (input : List Char) : Attempt ParseError (List Char) :=
  normalizeLines 0 (splitInclusive input)

def parseTokensAsScript (tokens : List Spanned) (input : List Char) : Attempt ParseError Ast := do
  let chunks ← splitTopLevelStatements tokens input
  match chunks with
  | [] => throw ⟨⟨0, Text.byteLength input⟩, "empty .cue script", .missingArgument,
      ["add at least one top-level item"]⟩
  | chunks => do
      let items ← parseChunks input chunks
      pure (.script items (chunksSpan chunks))

def parseFileScript (input : String) : Attempt ParseError Ast := do
  let normalized ← normalizeFileScript input.toList
  let tokens ← tokenizeForParser (String.ofList normalized)
  parseTokensAsScript tokens normalized

end Statements

section Resolver

/-- `words[..do_idx]` in front of `do`. -/
def parseDoSchedule (words : List String) (span : Span) : Attempt ParseError (CronScheduleAst × ℕ) :=
  match words.findIdx? (· == "do") with
  | some index =>
      if index ≤ words.length then Attempt.ofExcept (CueShell.parseDoSchedule words span) else Attempt.panic
  | none => Attempt.ofExcept (CueShell.parseDoSchedule words span)

/-- The schedule at the head of the words; only the one in front of `do` is sliced. -/
def parseScheduleWords (words : List String) (span : Span) : Attempt ParseError (CronScheduleAst × ℕ) :=
  match words[0]? with
  | none => Attempt.ofExcept (CueShell.parseScheduleWords words span)
  | some keyword =>
      if keyword ∈ ["every", "at", "on", "in", "cron", "daily", "hourly", "weekly", "monthly"] then
        Attempt.ofExcept (CueShell.parseScheduleWords words span)
      else parseDoSchedule words span

def parseBareCronSchedule (words : List String) (span : Span) : Attempt ParseError (CronScheduleAst × ℕ) := do
  let (schedule, consumed) ← parseScheduleWords words span
  pure (schedule, if words[consumed]? = some "do" then consumed + 1 else consumed)

/-- `words.drain(..consumed)`. -/
def drainWords (words : List String) (consumed : ℕ) : Attempt ParseError (List String) :=
  if consumed ≤ words.length then pure (words.drop consumed) else Attempt.panic

def splitBareCronChain (chain : ChainNode) (span : Span) : Attempt ParseError (CronScheduleAst × ChainNode) :=
  match chain.leftmostCommandWords with
  | none => throw ⟨span, "`:cron` requires a schedule expression", .missingArgument,
      [":cron every 5m cargo test"]⟩
  | some words => do
      let (schedule, consumed) ← parseBareCronSchedule words span
      if words.length = consumed then
        throw ⟨span, "`:cron` requires a command body after schedule", .missingArgument, []⟩
      else do
        let body ← drainWords words consumed
        pure (schedule, chain.setLeftmostCommandWords body)

def resolveCron (chain : ChainNode) (params : ModeParams) (span : Span) : Attempt ParseError SingleCommand := do
  let (scheduleAst, body) ← splitBareCronChain chain span
  match convertCronSchedule scheduleAst with
  | some schedule => pure (.cron schedule body params)
  | none =>
      throw ⟨span, "cannot parse cron schedule from: " ++ cronScheduleDisplay scheduleAst,
        .invalidCronSchedule, ["every 5m", "at 09:00", "daily"]⟩

/-- `text.find(char::is_whitespace)`: the byte position of the first white space. -/
def findWhitespace (text : List Char) : Option ℕ :=
  if text.any Text.isWhiteSpace then some (Text.byteLength (text.takeWhile (!Text.isWhiteSpace ·))) else none

def splitFirstWord (text : List Char) : Attempt ParseError (Option (List Char × List Char)) :=
  let trimmed := Text.trim text
  if trimmed = [] then pure none
  else
    match findWhitespace trimmed with
    | some index => do
        let front ← strSlice trimmed 0 index
        let back ← strSlice trimmed index (Text.byteLength trimmed)
        pure (some (front, back))
    | none => pure (some (trimmed, []))

def extractTargetAndText (argument : Argument) (span : Span) (command : String) :
    Attempt ParseError (String × String) := do
  let fail (message : String) : Attempt ParseError (String × String) :=
    throw ⟨span, message, .missingArgument, [":" ++ command ++ " J1 your input"]⟩
  match ← splitFirstWord (Text.trim argument.rawText) with
  | none => fail ("`:" ++ command ++ "` requires a target and input")
  | some (id, rest) =>
      if Text.trim rest = [] then fail ("`:" ++ command ++ "` requires input after the target")
      else pure (String.ofList id, String.ofList (Text.trim rest))

/-- The commands whose arguments are sliced; the others are resolved by their argument alone, and
`none` there is an `unreachable!`. -/
def resolveCommand (name : String) (modeParams : List (String × Value)) (argument : Argument)
    (span : Span) : Attempt ParseError SingleCommand :=
  match name, argument with
  | "cron", .chain chain => resolveCron chain (convertModeParams modeParams) span
  | "send", argument => do
      let (id, data) ← extractTargetAndText argument span "send"
      pure (.send id data)
  | name, argument => ExceptT.mk (CueShell.Resolver.resolveCommand name modeParams argument span)

def resolveBare (argument : Argument) (mode : Mode) (span : Span) : Attempt ParseError SingleCommand :=
  if CueShell.Resolver.isModeHelpRequest argument then pure (.help (some (CueShell.Resolver.modeHelpTopic mode)))
  else
    match mode, argument with
    | .cron, .chain chain => resolveCron chain {} span
    | mode, argument => Attempt.ofExcept (CueShell.Resolver.resolveBare argument mode span)

def resolveStatement (mode : Mode) : Statement → Attempt ParseError SingleCommand
  | .bareInput argument span => resolveBare argument mode span
  | .command name modeParams argument span => resolveCommand name modeParams argument span

def resolveItems (mode : Mode) : List ScriptItemAst → Attempt ParseError (List ResolvedScriptItem)
  | [] => pure []
  | item :: rest => do
      let command ← resolveStatement mode item.statement
      let items ← resolveItems mode rest
      pure (⟨item.source, command⟩ :: items)

def resolve (mode : Mode) : Ast → Attempt ParseError ResolvedCommand
  | .script items _ => do
      let items ← resolveItems mode items
      pure (.script mode .inline items)
  | .single statement => do
      let command ← resolveStatement mode statement
      pure (.single command)

end Resolver

/-- Tokenize, parse and resolve. -/
def parseCommand (input : String) (mode : Mode) : Attempt ParseError ResolvedCommand := do
  let ast ← parse input
  resolve mode ast

/-- The body of a `.cue` file. -/
def parseFileScriptCommand (input : String) : Attempt ParseError ResolvedCommand := do
  let ast ← parseFileScript input
  resolve .job ast

section Highlight

inductive HighlightKind where
  | commandPrefix
  | commandName
  | modeParam
  | operator
  | idRef
  | word
  | string
  | number
  | error
deriving DecidableEq, Repr

structure HighlightSpan where
  start : ℕ
  stop : ℕ
  kind : HighlightKind
deriving DecidableEq, Repr

def highlightKind : Token → Option HighlightKind
  | .command _ => some .commandName
  | .modeParenOpen | .modeParenClose | .paramEq | .paramValue _ | .comma => some .modeParam
  | .serialThen | .serialAlways | .parallelAll | .parallelRace | .jobAnd | .jobOr | .pipeStdout | .pipeAll
  | .pipeStderr => some .operator
  | .idRef _ _ => some .idRef
  | .word _ => some .word
  | .colon => some .commandPrefix
  | .groupOpen | .groupClose => some .word
  | .whitespace _ | .newline | .eof => none

/-- The spans of an input line to colour; a tokenizer error is one span at its position. -/
def highlightInput (input : String) : Option (List HighlightSpan) :=
  (ByteTokenizer.tokenize input).run.map fun
    | .ok tokens => tokens.filterMap fun spanned =>
        (highlightKind spanned.token).map fun kind => ⟨spanned.span.start, spanned.span.stop, kind⟩
    | .error error => [⟨error.pos, min (error.pos + 1) (Text.byteLength input.toList), .error⟩]

end Highlight

end FrontEnd

end CueShell
