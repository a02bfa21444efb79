import CueShell.Model.Parser.Token

/-! # The tokenizer

The source walks over bytes; every byte it compares with is ASCII, so the model walks over
characters and keeps the byte offset. A tokenizer state holds the rest of the input, the character
in front of it (operators ask for blanks around them), and the two context flags that tell mode
parameters from groups.
-/

namespace CueShell

inductive OperatorBoundary where
  | any
  | whitespaceRequired
deriving DecidableEq, Repr

inductive TokenClass where
  | command
  | other
deriving DecidableEq, Repr

structure TokenizeError where
  pos : ℕ
  message : String
deriving DecidableEq, Repr

structure Tokenizer where
  rest : List Char
  before : Option Char
  pos : ℕ
  lastSignificant : Option TokenClass
  inModeParams : Bool
deriving DecidableEq, Repr

def isIdentChar (c : Char) : Bool := c.isAlphanum || c == '_'

def isDelimiter (c : Char) : Bool :=
  c == ' ' || c == '\t' || c == '\n' || c == '(' || c == ')' || c == '|' || c == '"'

def isBlank (c : Char) : Bool := c == ' ' || c == '\t'

def isOperatorBoundary (c : Char) : Bool := c == ' ' || c == '\t' || c == '\n' || c == '\r'

/-- The operator at the head of the text, longest match first, with its length. -/
def startsWithOperator : List Char → Option (Token × OperatorBoundary)
  | '|' :: '&' :: '>' :: _ => some (.pipeAll, .any)
  | '|' :: '!' :: '>' :: _ => some (.pipeStderr, .any)
  | '|' :: '|' :: '|' :: _ => some (.parallelAll, .whitespaceRequired)
  | '|' :: '?' :: '|' :: _ => some (.parallelRace, .whitespaceRequired)
  | '-' :: '>' :: _ => some (.serialThen, .whitespaceRequired)
  | '~' :: '>' :: _ => some (.serialAlways, .whitespaceRequired)
  | '|' :: '>' :: _ => some (.pipeStdout, .any)
  | '&' :: '&' :: _ => some (.jobAnd, .any)
  | '|' :: '|' :: _ => some (.jobOr, .any)
  | _ => none

/-- Whether an operator of the given length stands between blanks or ends of the input. -/
def operatorHasRequiredWhitespace (before : Option Char) (text : List Char) (length : ℕ) : Bool :=
  before.all isOperatorBoundary && (text.drop length).head?.all isOperatorBoundary

def missingOperatorWhitespaceError (pos : ℕ) (operator : String) (text : List Char) :
    TokenizeError :=
  ⟨pos, "cue chain operator `" ++ operator ++
    "` must be surrounded by whitespace; quote it to pass it as an argument (saw `" ++
    String.ofList (text.take operator.length) ++ "`)"⟩

/-- Gobble a regular word until a delimiter or an operator: its characters and the rest. -/
def gobbleWord (inModeParams : Bool) : Option Char → ℕ → List Char →
    Except TokenizeError (List Char × List Char)
  | _, _, [] => .ok ([], [])
  | before, pos, c :: rest =>
      if isDelimiter c || (inModeParams && (c == '=' || c == ',')) then .ok ([], c :: rest)
      else
        match startsWithOperator (c :: rest) with
        | some (token, boundary) =>
            if boundary = .whitespaceRequired ∧ operatorHasRequiredWhitespace before (c :: rest)
                token.operatorText.length = false then
              .error (missingOperatorWhitespaceError pos token.operatorText (c :: rest))
            else .ok ([], c :: rest)
        | none => do
            let (word, after) ← gobbleWord inModeParams (some c) (pos + c.utf8Size) rest
            .ok (c :: word, after)

/-- The body of a double-quoted string after its opening quote: content, source text, rest.
`none` is an input that ends inside the string; the flag tells an unterminated escape. -/
def doubleQuoted : List Char → Except Bool (List Char × List Char × List Char)
  | [] => .error false
  | '"' :: rest => .ok ([], ['"'], rest)
  | ['\\'] => .error true
  | '\\' :: c :: rest => do
      let (content, text, after) ← doubleQuoted rest
      let unescaped :=
        if c = '"' then ['"'] else if c = '\\' then ['\\'] else if c = 'n' then ['\n']
        else if c = 't' then ['\t'] else ['\\', c]
      .ok (unescaped ++ content, '\\' :: c :: text, after)
  | c :: rest => do
      let (content, text, after) ← doubleQuoted rest
      .ok (c :: content, c :: text, after)

/-- The body of a single-quoted string after its opening quote. -/
def singleQuoted : List Char → Option (List Char × List Char)
  | [] => none
  | '\'' :: rest => some ([], rest)
  | c :: rest => (singleQuoted rest).map fun (content, after) => (c :: content, after)

def tryParseValue (text : List Char) : Option Bool :=
  if text = "true".toList then some true
  else if text = "false".toList then some false
  else none

/-- The kind announced by the prefix letter of an ID reference. -/
def tryIdKind : List Char → Option IdKind
  | 'J' :: digit :: _ => if digit.isDigit then some .job else none
  | 'C' :: digit :: _ => if digit.isDigit then some .cron else none
  | _ => none

/-- An ID reference at the head of the text: kind, number, and the digits it consists of. -/
def idRefAt (text : List Char) : Option (IdKind × ℕ × List Char) :=
  match tryIdKind text with
  | none => none
  | some kind =>
      let digits := text.tail.takeWhile Char.isDigit
      let after := text.tail.dropWhile Char.isDigit
      if (after.head?.all fun c => !isIdentChar c) then
        (Text.parseDigits (2 ^ 32) digits).map fun number => (kind, number, digits)
      else none

namespace Tokenizer

def new (input : String) : Tokenizer := ⟨input.toList, none, 0, none, false⟩

/-- Emit a token that covers `text` and go on with `rest`. -/
def emit (t : Tokenizer) (token : Token) (text rest : List Char) (last : Option TokenClass)
    (inModeParams : Bool) : Spanned × Tokenizer :=
  let stop := t.pos + Text.byteLength text
  (⟨token, ⟨t.pos, stop⟩⟩, ⟨rest, text.getLast?.or t.before, stop, last, inModeParams⟩)

/-- Emit a significant token that leaves the mode-parameter flag alone. -/
def emitOther (t : Tokenizer) (token : Token) (text rest : List Char) : Spanned × Tokenizer :=
  t.emit token text rest (some .other) t.inModeParams

/-- An operator that has to stand between blanks. -/
def spacedOperator (t : Tokenizer) (token : Token) :
    Except TokenizeError (Spanned × Tokenizer) :=
  let length := token.operatorText.length
  if operatorHasRequiredWhitespace t.before t.rest length then
    .ok (t.emitOther token (t.rest.take length) (t.rest.drop length))
  else .error (missingOperatorWhitespaceError t.pos token.operatorText t.rest)

/-- The current character is `|`. -/
def tokenizePipeOrParallel (t : Tokenizer) : Except TokenizeError (Spanned × Tokenizer) :=
  match t.rest with
  | '|' :: '>' :: rest => .ok (t.emitOther .pipeStdout ['|', '>'] rest)
  | '|' :: '&' :: '>' :: rest => .ok (t.emitOther .pipeAll ['|', '&', '>'] rest)
  | '|' :: '!' :: '>' :: rest => .ok (t.emitOther .pipeStderr ['|', '!', '>'] rest)
  | '|' :: '|' :: '|' :: _ => t.spacedOperator .parallelAll
  | '|' :: '?' :: '|' :: _ => t.spacedOperator .parallelRace
  | '|' :: '|' :: rest => .ok (t.emitOther .jobOr ['|', '|'] rest)
  | _ => .error ⟨t.pos, "bare `|` is not a cue-shell pipe operator; use `|>` for stdout pipes, " ++
      "`|&>` for stdout+stderr, or quote `|` to pass it as an argument"⟩

def tokenizeQuotedString (t : Tokenizer) (body : List Char) :
    Except TokenizeError (Spanned × Tokenizer) :=
  match doubleQuoted body with
  | .ok (content, text, rest) => .ok (t.emitOther (.word (String.ofList content)) ('"' :: text) rest)
  | .error false => .error ⟨t.pos, "unterminated string"⟩
  | .error true => .error ⟨t.pos + Text.byteLength t.rest, "unterminated escape"⟩

def tokenizeSingleQuotedString (t : Tokenizer) (body : List Char) :
    Except TokenizeError (Spanned × Tokenizer) :=
  match singleQuoted body with
  | some (content, rest) =>
      .ok (t.emitOther (.word (String.ofList content)) ('\'' :: content ++ ['\'']) rest)
  | none => .error ⟨t.pos, "unterminated single-quoted string"⟩

/-- A regular word, or a parameter value inside mode params. -/
def tokenizeRegularWord (t : Tokenizer) : Except TokenizeError (Spanned × Tokenizer) := do
  let (word, rest) ← gobbleWord t.inModeParams t.before t.pos t.rest
  if word = [] then
    .error ⟨t.pos, "unexpected character '" ++ String.ofList (t.rest.take 1) ++ "'"⟩
  else
    match if t.inModeParams then tryParseValue word else none with
    | some value => .ok (t.emitOther (.paramValue value) word rest)
    | none => .ok (t.emitOther (.word (String.ofList word)) word rest)

def tokenizeWord (t : Tokenizer) : Except TokenizeError (Spanned × Tokenizer) :=
  match idRefAt t.rest with
  | some (kind, number, digits) =>
      .ok (t.emitOther (.idRef kind number) (t.rest.take (digits.length + 1))
        (t.rest.drop (digits.length + 1)))
  | none =>
      match t.rest with
      | '"' :: body => t.tokenizeQuotedString body
      | '\'' :: body => t.tokenizeSingleQuotedString body
      | c :: rest =>
          if t.inModeParams ∧ c = '=' then .ok (t.emitOther .paramEq [c] rest)
          else if t.inModeParams ∧ c = ',' then .ok (t.emitOther .comma [c] rest)
          else t.tokenizeRegularWord
      | [] => t.tokenizeRegularWord

/-- A colon at the start of a statement, with the command name if one follows. -/
def tokenizeColon (t : Tokenizer) (rest : List Char) : Spanned × Tokenizer :=
  let name := rest.takeWhile isIdentChar
  if name = [] then t.emitOther .colon [':'] rest
  else t.emit (.command (String.ofList name)) (':' :: name) (rest.dropWhile isIdentChar)
    (some .command) t.inModeParams

def nextToken (t : Tokenizer) : Except TokenizeError (Spanned × Tokenizer) :=
  match t.rest with
  | [] => .ok (⟨.eof, ⟨t.pos, t.pos⟩⟩, t)
  | '\n' :: rest => .ok (t.emit .newline ['\n'] rest none t.inModeParams)
  | '\r' :: '\n' :: rest => .ok (t.emit .newline ['\r', '\n'] rest none t.inModeParams)
  | c :: rest =>
      if isBlank c then
        let blanks := t.rest.takeWhile isBlank
        .ok (t.emit (.whitespace (String.ofList blanks)) blanks (t.rest.dropWhile isBlank)
          t.lastSignificant t.inModeParams)
      else if c = ':' ∧ (t.pos = 0 ∨ t.lastSignificant = none) then .ok (t.tokenizeColon rest)
      else if c = '(' then
        if t.lastSignificant = some .command then
          .ok (t.emit .modeParenOpen [c] rest (some .other) true)
        else .ok (t.emitOther .groupOpen [c] rest)
      else if c = ')' then
        if t.inModeParams then .ok (t.emit .modeParenClose [c] rest (some .other) false)
        else .ok (t.emitOther .groupClose [c] rest)
      else if c = '-' ∧ rest.head? = some '>' then t.spacedOperator .serialThen
      else if c = '~' ∧ rest.head? = some '>' then t.spacedOperator .serialAlways
      else if c = '&' ∧ rest.head? = some '&' then
        .ok (t.emitOther .jobAnd (t.rest.take 2) (t.rest.drop 2))
      else if c = '|' then t.tokenizePipeOrParallel
      else t.tokenizeWord

/-- The loop of `tokenize`; every token but the last consumes input, so the fuel is not exhausted. -/
def tokenizeLoop : ℕ → Tokenizer → Except TokenizeError (List Spanned)
  | 0, _ => .ok []
  | fuel + 1, t => do
      let (spanned, t) ← t.nextToken
      if spanned.token = .eof then .ok [spanned]
      else
        let tokens ← tokenizeLoop fuel t
        .ok (spanned :: tokens)

/-- Tokenize the entire input, returning all tokens including whitespace. -/
def tokenize (input : String) : Except TokenizeError (List Spanned) :=
  tokenizeLoop (input.length + 1) (new input)

end Tokenizer

end CueShell
