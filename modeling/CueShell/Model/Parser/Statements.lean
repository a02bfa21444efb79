import CueShell.Model.Parser.Parse

/-! # Statements and scripts

An input is split into statements at line ends. A line end inside parentheses, after an operator or
before an operator belongs to the statement around it. File scripts lose their comments first.
-/

namespace CueShell

structure ScriptChunk where
  tokens : List Spanned
  source : String
  span : Span
deriving DecidableEq, Repr

def tokenRequiresContinuation : Token → Bool
  | .serialThen | .serialAlways | .parallelAll | .parallelRace | .pipeStdout | .pipeAll
  | .pipeStderr | .jobAnd | .jobOr => true
  | _ => false

/-- The next token that is neither a line end nor the end of the input. -/
def nextSignificant (tokens : List Spanned) : Option Token :=
  (tokens.map Spanned.token).find? fun token => token ≠ .newline ∧ token ≠ .eof

/-- Whether a line end with `rest` after it closes the statement collected so far. -/
def shouldSplitOnNewline (rest : List Spanned) (depth : ℕ) (current : List Spanned) : Bool :=
  if current = [] then true
  else if 0 < depth then false
  else if (current.getLast?.any fun spanned => tokenRequiresContinuation spanned.token) then false
  else !(nextSignificant rest).any tokenRequiresContinuation

/-- Close the current statement, unless its source text is blank. -/
def pushScriptChunk (input : List Char) (chunks : List ScriptChunk) (current : List Spanned) :
    List ScriptChunk :=
  match current.head?, current.getLast? with
  | some first, some last =>
      let span : Span := ⟨first.span.start, last.span.stop⟩
      let source := Text.trim (Text.slice input span.start span.stop)
      if source = [] then chunks else chunks ++ [⟨current, String.ofList source, span⟩]
  | _, _ => chunks

def splitLoop (input : List Char) : List ScriptChunk → List Spanned → ℕ → List Spanned →
    List ScriptChunk
  | chunks, current, _, [] => pushScriptChunk input chunks current
  | chunks, current, depth, spanned :: rest =>
      match spanned.token with
      | .eof => pushScriptChunk input chunks current
      | .modeParenOpen | .groupOpen => splitLoop input chunks (current ++ [spanned]) (depth + 1) rest
      | .modeParenClose | .groupClose =>
          splitLoop input chunks (current ++ [spanned]) (depth - 1) rest
      | .newline =>
          if shouldSplitOnNewline rest depth current then
            splitLoop input (pushScriptChunk input chunks current) [] depth rest
          else splitLoop input chunks current depth rest
      | _ => splitLoop input chunks (current ++ [spanned]) depth rest

def splitTopLevelStatements (tokens : List Spanned) (input : List Char) : List ScriptChunk :=
  splitLoop input [] [] 0 tokens

def tokenizeForParser (input : String) : Except ParseError (List Spanned) :=
  match Tokenizer.tokenize input with
  | .error e => .error ⟨⟨e.pos, e.pos + 1⟩, e.message, .unexpectedToken, []⟩
  | .ok tokens => .ok (tokens.filter fun spanned => !spanned.token.isWhitespace)

def parseChunk (input : List Char) (chunk : ScriptChunk) : Except ParseError ScriptItemAst := do
  let statement ← (⟨chunk.tokens, input⟩ : Parser).parseSingleStatement
  .ok ⟨chunk.source, statement, chunk.span⟩

/-- The span from the first chunk to the last one. -/
def chunksSpan (chunks : List ScriptChunk) : Span :=
  ⟨(chunks.head?.map fun chunk => chunk.span.start).getD 0,
    (chunks.getLast?.map fun chunk => chunk.span.stop).getD 0⟩

namespace Parser

def parseTokens (tokens : List Spanned) (input : List Char) : Except ParseError Ast :=
  match splitTopLevelStatements tokens input with
  | [] => .ok (.single (.bareInput .empty ⟨0, 0⟩))
  | [chunk] => do
      let statement ← (⟨chunk.tokens, input⟩ : Parser).parseSingleStatement
      .ok (.single statement)
  | chunks => do
      let items ← chunks.mapM (parseChunk input)
      .ok (.script items (chunksSpan chunks))

def parseTokensAsScript (tokens : List Spanned) (input : List Char) : Except ParseError Ast :=
  match splitTopLevelStatements tokens input with
  | [] => .error ⟨⟨0, Text.byteLength input⟩, "empty .cue script", .missingArgument,
      ["add at least one top-level item"]⟩
  | chunks => do
      let items ← chunks.mapM (parseChunk input)
      .ok (.script items (chunksSpan chunks))

/-- Parse a raw input string. -/
def parse (input : String) : Except ParseError Ast := do
  let tokens ← tokenizeForParser input
  parseTokens tokens input.toList

end Parser

/-- The scan of `strip_file_script_comment`: the text in front of a comment, if there is one. -/
structure CommentScan where
  inSingle : Bool := false
  inDouble : Bool := false
  escaped : Bool := false
  boundary : Bool := true
deriving DecidableEq, Repr

/-- The state after one character, or `none` where a comment starts. -/
def CommentScan.step (scan : CommentScan) (c : Char) : Option CommentScan :=
  if scan.inDouble then
    if scan.escaped then some { scan with escaped := false }
    else if c = '\\' then some { scan with escaped := true }
    else if c = '"' then some { scan with inDouble := false }
    else some scan
  else if scan.inSingle then
    if c = '\'' then some { scan with inSingle := false } else some scan
  else if c = '#' ∧ scan.boundary then none
  else if c = '"' then some { scan with inDouble := true, boundary := false }
  else if c = '\'' then some { scan with inSingle := true, boundary := false }
  else if c = ' ' ∨ c = '\t' then some { scan with boundary := true }
  else some { scan with boundary := false }

/-- The characters before the comment, or `none` if the line has no comment. -/
def beforeComment : CommentScan → List Char → Option (List Char)
  | _, [] => none
  | scan, c :: rest =>
      match scan.step c with
      | none => some []
      | some scan => (beforeComment scan rest).map (c :: ·)

def stripFileScriptComment (line : List Char) : List Char :=
  match beforeComment {} line with
  | some front => Text.trimEnd front
  | none => line

/-- The lines of a text, each with its line end if it has one. -/
def splitInclusive : List Char → List (List Char × Bool)
  | [] => []
  | c :: rest =>
      if c = '\n' then ([], true) :: splitInclusive rest
      else
        match splitInclusive rest with
        | [] => [([c], false)]
        | (line, ended) :: lines => (c :: line, ended) :: lines

def normalizeLine (index : ℕ) (line : List Char) : List Char :=
  let body := (Text.stripSuffix ['\r'] line).getD line
  if index = 0 ∧ (['#', '!'].isPrefixOf body) then [] else stripFileScriptComment body

def normalizeFileScript (input : List Char) : List Char :=
  ((splitInclusive input).zipIdx.map fun ((line, ended), index) =>
    normalizeLine index line ++ if ended then ['\n'] else []).flatten

/-- Parse a `.cue` file-script body into a top-level script. -/
def Parser.parseFileScript (input : String) : Except ParseError Ast := do
  let normalized := normalizeFileScript input.toList
  let tokens ← tokenizeForParser (String.ofList normalized)
  Parser.parseTokensAsScript tokens normalized

end CueShell
