import CueShell.Model.Parser.Tokenizer
import CueShell.ToMathlib.Attempt
import CueShell.ToMathlib.Utf8

/-! # The tokenizer over bytes

The tokenizer as the source has it: a position in the bytes of the input, and slices of the input by
byte positions. A byte is read as the character with its code, so that `b'\n'` is `'\n'`. An index out
of range and a slice off a character boundary panic; a loop that does not end counts as a panic too.
-/

namespace CueShell

structure ByteTokenizer where
  input : List Char
  pos : ℕ
  lastSignificant : Option TokenClass
  inModeParams : Bool
deriving DecidableEq, Repr

/-- `&input[start..end]`. -/
def strSlice {ε : Type} (input : List Char) (start stop : ℕ) : Attempt ε (List Char) :=
  if start ≤ stop ∧ Text.isCharBoundary (Text.utf8 input) start ∧
      Text.isCharBoundary (Text.utf8 input) stop then
    pure (Text.slice input start stop)
  else Attempt.panic

/-- The length of the operator at the head of the bytes. -/
def operatorLen (tail : List Char) : ℕ :=
  ((["|&>", "|!>", "|||", "|?|", "->", "~>", "|>", "&&", "||"].find? fun operator =>
    operator.toList.isPrefixOf tail).map String.length).getD 0

namespace ByteTokenizer

def new (input : String) : ByteTokenizer := ⟨input.toList, 0, none, false⟩

def bytes (t : ByteTokenizer) : List Char := Text.utf8 t.input

/-- `bytes[pos]`. -/
def byteAt (t : ByteTokenizer) (pos : ℕ) : Attempt TokenizeError Char := Attempt.ofOption t.bytes[pos]?

def peekAt (t : ByteTokenizer) (offset : ℕ) : Option Char := t.bytes[t.pos + offset]?

def slice (t : ByteTokenizer) (start stop : ℕ) : Attempt TokenizeError (List Char) :=
  strSlice t.input start stop

/-- The position after the bytes of a class from `pos` on. -/
def skipWhile (t : ByteTokenizer) (p : Char → Bool) (pos : ℕ) : ℕ :=
  pos + ((t.bytes.drop pos).takeWhile p).length

def isOperatorBoundaryBefore (t : ByteTokenizer) (start : ℕ) : Attempt TokenizeError Bool :=
  if start = 0 then pure true
  else do
    let byte ← t.byteAt (start - 1)
    pure (isOperatorBoundary byte)

def isOperatorBoundaryAfter (t : ByteTokenizer) (stop : ℕ) : Attempt TokenizeError Bool :=
  if t.bytes.length ≤ stop then pure true
  else do
    let byte ← t.byteAt stop
    pure (isOperatorBoundary byte)

def operatorHasRequiredWhitespace (t : ByteTokenizer) (start length : ℕ) : Attempt TokenizeError Bool := do
  let before ← t.isOperatorBoundaryBefore start
  if before then t.isOperatorBoundaryAfter (start + length) else pure false

def missingOperatorWhitespaceError {α : Type} (t : ByteTokenizer) (start : ℕ) (operator : String)
    (length : ℕ) : Attempt TokenizeError α := do
  let saw ← t.slice start (min (start + length) t.bytes.length)
  throw ⟨start, "cue chain operator `" ++ operator ++
    "` must be surrounded by whitespace; quote it to pass it as an argument (saw `" ++
    String.ofList saw ++ "`)"⟩

/-- A token and the state after it, which has seen a significant token. -/
def other (t : ByteTokenizer) (token : Token) (pos : ℕ) : Token × ByteTokenizer :=
  (token, { t with pos, lastSignificant := some .other })

/-- An operator that has to stand between blanks. -/
def spacedOperator (t : ByteTokenizer) (token : Token) (operator : String) (length : ℕ) :
    Attempt TokenizeError (Token × ByteTokenizer) := do
  let fits ← t.operatorHasRequiredWhitespace t.pos length
  if fits then pure (t.other token (t.pos + length))
  else t.missingOperatorWhitespaceError t.pos operator length

/-- The current byte is `|`. -/
def tokenizePipeOrParallel (t : ByteTokenizer) : Attempt TokenizeError (Token × ByteTokenizer) :=
  if t.peekAt 1 = some '>' then pure (t.other .pipeStdout (t.pos + 2))
  else if t.peekAt 1 = some '&' ∧ t.peekAt 2 = some '>' then pure (t.other .pipeAll (t.pos + 3))
  else if t.peekAt 1 = some '!' ∧ t.peekAt 2 = some '>' then pure (t.other .pipeStderr (t.pos + 3))
  else if t.peekAt 1 = some '|' ∧ t.peekAt 2 = some '|' then t.spacedOperator .parallelAll "|||" 3
  else if t.peekAt 1 = some '?' ∧ t.peekAt 2 = some '|' then t.spacedOperator .parallelRace "|?|" 3
  else if t.peekAt 1 = some '|' then pure (t.other .jobOr (t.pos + 2))
  else throw ⟨t.pos, "bare `|` is not a cue-shell pipe operator; use `|>` for stdout pipes, " ++
    "`|&>` for stdout+stderr, or quote `|` to pass it as an argument"⟩

def tokenizeQuotedString (t : ByteTokenizer) : Attempt TokenizeError (Token × ByteTokenizer) :=
  match doubleQuoted (t.bytes.drop (t.pos + 1)) with
  | .ok (content, text, _) =>
      match Text.fromUtf8 content with
      | some word => pure (t.other (.word (String.ofList word)) (t.pos + 1 + text.length))
      | none => throw ⟨t.pos, "invalid UTF-8 in string"⟩
  | .error false => throw ⟨t.pos, "unterminated string"⟩
  | .error true => throw ⟨t.bytes.length, "unterminated escape"⟩

def tokenizeSingleQuotedString (t : ByteTokenizer) : Attempt TokenizeError (Token × ByteTokenizer) :=
  match singleQuoted (t.bytes.drop (t.pos + 1)) with
  | some (content, _) =>
      match Text.fromUtf8 content with
      | some word => pure (t.other (.word (String.ofList word)) (t.pos + 1 + content.length + 1))
      | none => throw ⟨t.pos, "invalid UTF-8 in single-quoted string"⟩
  | none => throw ⟨t.pos, "unterminated single-quoted string"⟩

def tryIdKind (t : ByteTokenizer) : Option IdKind :=
  if t.peekAt 0 = some 'J' ∧ (t.peekAt 1).any Char.isDigit then some .job
  else if t.peekAt 0 = some 'C' ∧ (t.peekAt 1).any Char.isDigit then some .cron
  else none

/-- An ID reference at the current position. -/
def tokenizeIdRef (t : ByteTokenizer) : Attempt TokenizeError (Option (Token × ByteTokenizer)) :=
  match t.tryIdKind with
  | none => pure none
  | some kind =>
      let stop := t.skipWhile Char.isDigit (t.pos + 1)
      if t.pos + 1 < stop ∧ (t.bytes[stop]?.all fun byte => !isIdentChar byte) then do
        let digits ← t.slice (t.pos + 1) stop
        pure ((Text.parseDigits (2 ^ 32) digits).map fun number => t.other (.idRef kind number) stop)
      else pure none

/-- Gobble until a delimiter or an operator: the position where the word ends. -/
def gobbleWord (t : ByteTokenizer) : ℕ → ℕ → Attempt TokenizeError ℕ
  | 0, _ => Attempt.panic
  | fuel + 1, pos =>
      match t.bytes[pos]? with
      | none => pure pos
      | some byte =>
          if isDelimiter byte || (t.inModeParams && (byte == '=' || byte == ',')) then pure pos
          else
            match startsWithOperator (t.bytes.drop pos) with
            | none => t.gobbleWord fuel (pos + 1)
            | some (_, .any) => pure pos
            | some (token, .whitespaceRequired) => do
                let fits ← t.operatorHasRequiredWhitespace pos (operatorLen (t.bytes.drop pos))
                if fits then pure pos
                else t.missingOperatorWhitespaceError pos token.operatorText token.operatorText.length

/-- A regular word, or a parameter value inside mode params. -/
def tokenizeRegularWord (t : ByteTokenizer) : Attempt TokenizeError (Token × ByteTokenizer) := do
  let stop ← t.gobbleWord (t.bytes.length + 1) t.pos
  if stop = t.pos then do
    let unknown ← t.slice t.pos (t.pos + 1)
    throw ⟨t.pos, "unexpected character '" ++ String.ofList unknown ++ "'"⟩
  else do
    let text ← t.slice t.pos stop
    match if t.inModeParams then tryParseValue text else none with
    | some value => pure (t.other (.paramValue value) stop)
    | none => pure (t.other (.word (String.ofList text)) stop)

def tokenizeWord (t : ByteTokenizer) : Attempt TokenizeError (Token × ByteTokenizer) := do
  match ← t.tokenizeIdRef with
  | some found => pure found
  | none =>
      let byte ← t.byteAt t.pos
      if t.inModeParams ∧ byte = '=' then pure (t.other .paramEq (t.pos + 1))
      else if t.inModeParams ∧ byte = ',' then pure (t.other .comma (t.pos + 1))
      else if byte = '"' then t.tokenizeQuotedString
      else if byte = '\'' then t.tokenizeSingleQuotedString
      else t.tokenizeRegularWord

/-- A colon at the start of a statement, with the command name if one follows. -/
def tokenizeColon (t : ByteTokenizer) : Attempt TokenizeError (Token × ByteTokenizer) :=
  let start := t.pos + 1
  let stop := t.skipWhile isIdentChar start
  if start < stop then do
    let name ← t.slice start stop
    pure (.command (String.ofList name), { t with pos := stop, lastSignificant := some .command })
  else pure (t.other .colon start)

/-- The token that starts with a byte other than a blank or a line end. -/
def tokenAt (t : ByteTokenizer) (byte : Char) : Attempt TokenizeError (Token × ByteTokenizer) :=
  if byte = ':' ∧ (t.pos = 0 ∨ t.lastSignificant = none) then t.tokenizeColon
  else if byte = '(' then
    if t.lastSignificant = some .command then
      pure ({ t with inModeParams := true }.other .modeParenOpen (t.pos + 1))
    else pure (t.other .groupOpen (t.pos + 1))
  else if byte = ')' then
    if t.inModeParams then pure ({ t with inModeParams := false }.other .modeParenClose (t.pos + 1))
    else pure (t.other .groupClose (t.pos + 1))
  else if byte = '-' ∧ t.peekAt 1 = some '>' then t.spacedOperator .serialThen "->" 2
  else if byte = '~' ∧ t.peekAt 1 = some '>' then t.spacedOperator .serialAlways "~>" 2
  else if byte = '&' ∧ t.peekAt 1 = some '&' then pure (t.other .jobAnd (t.pos + 2))
  else if byte = '|' then t.tokenizePipeOrParallel
  else t.tokenizeWord

/-- The token that starts with a byte, line ends and blanks included. -/
def anyTokenAt (t : ByteTokenizer) (byte : Char) : Attempt TokenizeError (Token × ByteTokenizer) :=
  if byte = '\n' then pure (.newline, { t with pos := t.pos + 1, lastSignificant := none })
  else if byte = '\r' ∧ t.peekAt 1 = some '\n' then
    pure (.newline, { t with pos := t.pos + 2, lastSignificant := none })
  else if isBlank byte then do
    let stop := t.skipWhile isBlank (t.pos + 1)
    let blanks ← t.slice t.pos stop
    pure (.whitespace (String.ofList blanks), { t with pos := stop })
  else t.tokenAt byte

def nextToken (t : ByteTokenizer) : Attempt TokenizeError (Spanned × ByteTokenizer) :=
  if t.bytes.length ≤ t.pos then pure (⟨.eof, ⟨t.pos, t.pos⟩⟩, t)
  else do
    let byte ← t.byteAt t.pos
    let (token, after) ← t.anyTokenAt byte
    pure (⟨token, ⟨t.pos, after.pos⟩⟩, after)

def tokenizeLoop : ℕ → ByteTokenizer → Attempt TokenizeError (List Spanned)
  | 0, _ => Attempt.panic
  | fuel + 1, t => do
      let (spanned, t) ← t.nextToken
      if spanned.token = .eof then pure [spanned]
      else do
        let tokens ← tokenizeLoop fuel t
        pure (spanned :: tokens)

/-- Tokenize the entire input, returning all tokens including whitespace. -/
def tokenize (input : String) : Attempt TokenizeError (List Spanned) :=
  tokenizeLoop ((new input).bytes.length + 1) (new input)

end ByteTokenizer

end CueShell
