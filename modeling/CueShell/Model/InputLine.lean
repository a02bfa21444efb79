import CueShell.Model.Parser.Resolver
import CueShell.ToMathlib.Slices

/-! # The input line

The prompt of the terminal interface: a text, the byte position of the cursor in it, and the history of
submitted texts. `none` is a panic.
-/

namespace CueShell

open Text

/-- What the prompt shows of the mode. -/
def Mode.indicator : Mode → List Char
  | .job => "⚡ JOB".toList
  | .cron => "⏰ CRON".toList

structure KeyModifiers where
  shift : Bool := false
  control : Bool := false
  alt : Bool := false
  super : Bool := false
  hyper : Bool := false
  metaKey : Bool := false
deriving DecidableEq, Repr

inductive KeyCode where
  | backspace
  | enter
  | left
  | right
  | up
  | down
  | home
  | endKey
  | backTab
  | delete
  | char (c : Char)
  | other
deriving DecidableEq, Repr

inductive KeyEventKind where
  | press
  | repeated
  | release
deriving DecidableEq, Repr

structure KeyEvent where
  code : KeyCode
  modifiers : KeyModifiers := {}
  kind : KeyEventKind := .press
deriving DecidableEq, Repr

/-- The messages of the input line to the application. -/
inductive AppMsg where
  | modeSwitch
  | toggleSidebar
  | submit (input : List Char)
deriving DecidableEq, Repr

inductive InputMsg where
  | setMode (mode : Mode)
  | clear
deriving DecidableEq, Repr

structure InputLine where
  content : List Char := []
  /-- A byte position in the content. -/
  cursor : ℕ := 0
  /-- The newest entry is the last one. -/
  history : List (List Char) := []
  /-- The entry that is shown while browsing. -/
  historyIdx : Option ℕ := none
  /-- The content from before browsing. -/
  stashed : List Char := []
  mode : Mode := .job
deriving DecidableEq, Repr

namespace InputLine

section History

variable (line : InputLine)

/-- The content of a submission; a blank one is not kept. -/
def takeInput : List Char × InputLine :=
  (line.content, { line with
    content := []
    cursor := 0
    historyIdx := none
    history := if trim line.content = [] then line.history else line.history ++ [line.content] })

def showEntry (idx : ℕ) : Option InputLine := do
  let entry ← line.history[idx]?
  pure { line with historyIdx := some idx, content := entry, cursor := byteLength entry }

def historyUp : Option InputLine :=
  if line.history = [] then some line
  else
    match line.historyIdx with
    | none => { line with stashed := line.content }.showEntry (line.history.length - 1)
    | some 0 => some line
    | some (idx + 1) => line.showEntry idx

def historyDown : Option InputLine :=
  match line.historyIdx with
  | none => some line
  | some idx =>
      if line.history.length ≤ idx + 1 then
        some { line with historyIdx := none, content := line.stashed, cursor := byteLength line.stashed }
      else line.showEntry (idx + 1)

def replaceHistory (history : List (List Char)) : InputLine :=
  { line with history := history, historyIdx := none, stashed := [] }

end History

section Words

variable (line : InputLine)

def insertText (text : List Char) : Option InputLine := do
  let content ← insertAt line.content line.cursor text
  pure { line with content := content, cursor := line.cursor + byteLength text, historyIdx := none }

/-- The word at the cursor starts one byte behind the start of the last white space before it. -/
def currentWordRange : Option (ℕ × ℕ) := do
  let cursor := min line.cursor (byteLength line.content)
  let front ← upTo line.content cursor
  let back ← behind line.content cursor
  let start := (rfind isWhiteSpace front).elim 0 (· + 1)
  pure (start, cursor + (find isWhiteSpace back).getD (byteLength back))

def replaceRange (start stop : ℕ) (text : List Char) : Option InputLine := do
  let content ← Text.replaceRange line.content start stop text
  pure { line with content := content, cursor := start + byteLength text, historyIdx := none }

/-- A completion reads the word at the cursor and replaces it, if there is a replacement. -/
def completeInput (replacement : Option (List Char)) : Option InputLine := do
  let (start, stop) ← line.currentWordRange
  let _ ← range line.content start stop
  match replacement with
  | none => pure line
  | some text => line.replaceRange start stop text

end Words

section Chars

variable (line : InputLine)

/-- The bytes of the character in front of the cursor. -/
def prevSize : Option ℕ := do
  let front ← upTo line.content line.cursor
  pure (front.getLast?.elim 0 Char.utf8Size)

/-- The bytes of the character behind the cursor. -/
def nextSize : Option ℕ := do
  let back ← behind line.content line.cursor
  pure (back.head?.elim 0 Char.utf8Size)

def moveLeft : Option InputLine :=
  if 0 < line.cursor then do
    let prev ← line.prevSize
    let cursor ← checkedSub line.cursor prev
    pure { line with cursor := cursor }
  else some line

def moveRight : Option InputLine :=
  if line.cursor < byteLength line.content then do
    let next ← line.nextSize
    pure { line with cursor := line.cursor + next }
  else some line

def backspace : Option InputLine :=
  if 0 < line.cursor then do
    let prev ← line.prevSize
    let cursor ← checkedSub line.cursor prev
    let content ← Text.replaceRange line.content cursor line.cursor []
    pure { line with content := content, cursor := cursor }
  else some line

def delete : Option InputLine :=
  if line.cursor < byteLength line.content then do
    let next ← line.nextSize
    let content ← Text.replaceRange line.content line.cursor (line.cursor + next) []
    pure { line with content := content }
  else some line

end Chars

section Lines

variable (line : InputLine)

/-- The start of the last line of a text. -/
def lineStart (front : List Char) : ℕ := (rfind (· == '\n') front).elim 0 (· + 1)

/-- The end of the first line of a text. -/
def lineEnd (back : List Char) : ℕ := (find (· == '\n') back).getD (byteLength back)

def currentLineBounds : Option (ℕ × ℕ) := do
  let front ← upTo line.content line.cursor
  let back ← behind line.content line.cursor
  pure (lineStart front, line.cursor + lineEnd back)

def moveToLineStart : Option InputLine := do
  let front ← upTo line.content line.cursor
  pure { line with cursor := lineStart front }

def moveToLineEnd : Option InputLine := do
  let back ← behind line.content line.cursor
  pure { line with cursor := line.cursor + lineEnd back }

def byteOffsetForCharColumn (text : List Char) (column : ℕ) : ℕ :=
  if column = 0 then 0
  else if column < text.length then byteLength (text.take column)
  else byteLength text

/-- Says whether there is a line above. -/
def moveUpLine : Option (Bool × InputLine) := do
  let (start, _) ← line.currentLineBounds
  if start = 0 then pure (false, line)
  else do
    let before ← range line.content start line.cursor
    let prevEnd := start - 1
    let front ← upTo line.content prevEnd
    let prevStart := lineStart front
    let prevLine ← range line.content prevStart prevEnd
    pure (true, { line with cursor := prevStart + byteOffsetForCharColumn prevLine before.length })

/-- Says whether there is a line below. -/
def moveDownLine : Option (Bool × InputLine) := do
  let (start, stop) ← line.currentLineBounds
  if byteLength line.content ≤ stop then pure (false, line)
  else do
    let before ← range line.content start line.cursor
    let nextStart := stop + 1
    let back ← behind line.content nextStart
    let nextLine ← range line.content nextStart (nextStart + lineEnd back)
    pure (true, { line with cursor := nextStart + byteOffsetForCharColumn nextLine before.length })

def deleteToLineStart : Option InputLine := do
  let (start, _) ← line.currentLineBounds
  if start < line.cursor then do
    let content ← Text.replaceRange line.content start line.cursor []
    pure { line with content := content, cursor := start }
  else pure line

def deleteToLineEnd : Option InputLine := do
  let (_, stop) ← line.currentLineBounds
  if line.cursor < stop then do
    let content ← Text.replaceRange line.content line.cursor stop []
    pure { line with content := content }
  else pure line

end Lines

section WordMoves

variable (line : InputLine)

/-- Moves a cursor to the left over the characters of a kind. -/
def leftOver (kind : Char → Bool) (content : List Char) (cursor : ℕ) : Option ℕ :=
  if 0 < cursor then do
    let front ← upTo content cursor
    let prev ← front.getLast?
    if kind prev then leftOver kind content (cursor - prev.utf8Size) else pure cursor
  else some cursor
termination_by cursor
decreasing_by
  have := prev.utf8Size_pos
  omega

/-- Moves a cursor to the right over the characters of a kind. -/
def rightOver (kind : Char → Bool) (content : List Char) (cursor : ℕ) : Option ℕ :=
  if cursor < byteLength content then do
    let back ← behind content cursor
    let next ← back.head?
    if kind next then rightOver kind content (cursor + next.utf8Size) else pure cursor
  else some cursor
termination_by byteLength content - cursor
decreasing_by
  have := next.utf8Size_pos
  omega

def moveWordLeft : Option InputLine := do
  let cursor ← leftOver isWhiteSpace line.content line.cursor
  let cursor ← leftOver (!isWhiteSpace ·) line.content cursor
  pure { line with cursor := cursor }

def moveWordRight : Option InputLine := do
  let cursor ← rightOver isWhiteSpace line.content line.cursor
  let cursor ← rightOver (!isWhiteSpace ·) line.content cursor
  pure { line with cursor := cursor }

def deleteWordLeft : Option InputLine := do
  let moved ← line.moveWordLeft
  let content ← Text.replaceRange moved.content moved.cursor line.cursor []
  pure { moved with content := content }

end WordMoves

section Mouse

variable (line : InputLine)

def promptText : List Char := " [".toList ++ line.mode.indicator ++ "] > ".toList

/-- The byte position of a column of a line, with a line feed behind every line before it. -/
def pointOffset (column : ℕ) : List (List Char) → ℕ → ℕ
  | [], _ => 0
  | existing :: _, 0 => byteOffsetForCharColumn existing column
  | existing :: rest, target + 1 => byteLength existing + 1 + pointOffset column rest target

/-- The corner of the area, then the point. -/
def setCursorFromPoint (areaX areaY column row : ℕ) : InputLine :=
  let lines := line.content.splitOn '\n'
  let contentColumn := column - areaX - line.promptText.length
  let targetLine := min (row - areaY) (lines.length - 1)
  { line with
    cursor := min (pointOffset contentColumn lines targetLine) (byteLength line.content)
    historyIdx := none }

end Mouse

section Keys

variable (line : InputLine)

def update : InputMsg → InputLine
  | .setMode mode => { line with mode := mode }
  | .clear => { line with content := [], cursor := 0, historyIdx := none }

/-- The history is browsed where there is no line above. -/
def keyUp : Option InputLine := do
  let (moved, next) ← line.moveUpLine
  if moved then pure next else next.historyUp

def keyDown : Option InputLine := do
  let (moved, next) ← line.moveDownLine
  if moved then pure next else next.historyDown

def keyChar (modifiers : KeyModifiers) (c : Char) : Option InputLine :=
  if modifiers = { control := true } then
    match c with
    | 'a' => some { line with cursor := 0 }
    | 'e' => some { line with cursor := byteLength line.content }
    | 'u' => line.deleteToLineStart
    | 'k' => line.deleteToLineEnd
    | 'w' => line.deleteWordLeft
    | c => line.insertText [c]
  else line.insertText [c]

/-- The keys that change the line and send no message. -/
def keyEdit (modifiers : KeyModifiers) : KeyCode → Option InputLine
  | .enter => if modifiers.shift || modifiers.control then line.insertText ['\n'] else some line
  | .up => line.keyUp
  | .down => line.keyDown
  | .left =>
      if modifiers = { alt := true } then line.moveWordLeft
      else if modifiers.super then line.moveToLineStart
      else line.moveLeft
  | .right =>
      if modifiers = { alt := true } then line.moveWordRight
      else if modifiers.super then line.moveToLineEnd
      else line.moveRight
  | .home => line.moveToLineStart
  | .endKey => line.moveToLineEnd
  | .backspace => line.backspace
  | .delete => line.delete
  | .char c => line.keyChar modifiers c
  | .backTab => some line
  | .other => some line

def handleKey (key : KeyEvent) : Option (InputLine × Option AppMsg) :=
  if key.kind ≠ .press then some (line, none)
  else
    match key.code, decide (key.modifiers = { control := true }) with
    | .backTab, _ => some (line, some .modeSwitch)
    | .char 'b', true => some (line, some .toggleSidebar)
    | .char 'c', true => some (line, none)
    | .enter, _ =>
        if key.modifiers = {} then
          some (line.takeInput.2, if line.content = [] then none else some (.submit line.takeInput.1))
        else (line.keyEdit key.modifiers .enter).map (·, none)
    | code, _ => (line.keyEdit key.modifiers code).map (·, none)

end Keys

/-- What the application does with the line. -/
inductive Operation where
  | insertText (text : List Char)
  | handleKey (key : KeyEvent)
  | setCursorFromPoint (areaX areaY column row : ℕ)
  | replaceHistory (history : List (List Char))
  | update (msg : InputMsg)
  | completeInput (replacement : Option (List Char))
deriving DecidableEq, Repr

def step (line : InputLine) : Operation → Option InputLine
  | .insertText text => line.insertText text
  | .handleKey key => (line.handleKey key).map Prod.fst
  | .setCursorFromPoint areaX areaY column row => some (line.setCursorFromPoint areaX areaY column row)
  | .replaceHistory history => some (line.replaceHistory history)
  | .update msg => some (line.update msg)
  | .completeInput replacement => line.completeInput replacement

def run (operations : List Operation) : Option InputLine := operations.foldlM step {}

end InputLine

end CueShell
