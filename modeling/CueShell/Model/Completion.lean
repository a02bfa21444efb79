import CueShell.Model.Aliases
import CueShell.Model.CommandSpec
import CueShell.Model.InputLine
import Mathlib.Data.Char
import Mathlib.Data.List.Lex

/-! # Completion

What the word at the cursor may go on with. The file system is a parameter; `none` is a panic, and an
error is one of reading a directory.
-/

namespace CueShell.Completion

open Text

structure CompletionScope where
  mode : Mode
  content : List Char
  cursor : ℕ
  /-- The start and the end of the word. -/
  wordRange : ℕ × ℕ
  jobIds : List (List Char)
  cronIds : List (List Char)
deriving DecidableEq, Repr

/-- What a word finds in the file system. -/
structure Listing (Error : Type) where
  /-- The entries of the directory that the word is in whose names start with its last part; a flag marks
  directories. -/
  entries : List Char → Except Error (List (List Char × Bool))
  /-- The programs on the search path whose names start with the word. -/
  commands : List Char → List (List Char)

section Candidates

variable {Error : Type} (listing : Listing Error)

/-- The part of the word that the names of the entries are put behind. -/
def displayPrefix (word : List Char) : Option (List Char) :=
  if word = ['~'] then some ['~', '/']
  else if word.getLast? = some '/' then some word
  else
    match rfind (· == '/') word with
    | none => some []
    | some index => upTo word (index + 1)

def pathCompletionCandidates (word : List Char) : Option (Except Error (List (List Char))) :=
  match listing.entries word with
  | .error error => some (.error error)
  | .ok entries => do
      let shown ← displayPrefix word
      pure (.ok (entries.map fun (name, directory) => shown ++ name ++ if directory then ['/'] else []))

def commandCompletionCandidates (word : List Char) : List (List Char) :=
  if '/' ∈ word ∨ word.head? = some '~' then [] else listing.commands word

def isChainOperator (token : List Char) : Bool :=
  token = "->".toList || token = "~>".toList || token = "|||".toList || token = "|?|".toList

/-- Whether the word at the end of a line is the first of its segment. -/
def completingCommand (linePrefix : List Char) : Bool :=
  let tokens := splitWhitespace linePrefix
  let segmentStart := (tokens.reverse.findIdx? isChainOperator).elim 0 (tokens.length - ·)
  let segmentTokenCount := tokens.length - segmentStart
  if linePrefix.getLast?.any isWhiteSpace then
    trim linePrefix = [] || tokens.getLast?.any isChainOperator || segmentTokenCount = 0
  else trim linePrefix = [] || segmentTokenCount ≤ 1

def shellSegmentCompletionCandidates (linePrefix word : List Char) :
    Option (Except Error (List (List Char))) := do
  match ← pathCompletionCandidates listing word with
  | .error error => pure (.error error)
  | .ok paths =>
      let commands := if completingCommand linePrefix then commandCompletionCandidates listing word else []
      pure (.ok ((paths ++ commands).mergeSort fun first second => decide (first ≤ second)).eraseReps)

def keywords : List (List Char) :=
  ["every".toList, "in".toList, "at".toList, "on".toList, "daily".toList, "hourly".toList, "weekly".toList,
    "monthly".toList, "cron".toList]

/-- The number of words of the schedule that the words of a line start with. -/
def startAfter (tokens : List (List Char)) : Option ℕ := do
  let first ← tokens.head?
  if first ∈ ["daily".toList, "hourly".toList, "weekly".toList, "monthly".toList] then some 1
  else if first ∈ ["every".toList, "in".toList] then some 2
  else if first = "cron".toList then some 6
  else if first = "at".toList then
    if 4 ≤ tokens.length ∧ tokens[2]? = some "on".toList then some 4 else some 2
  else if first = "on".toList then
    if 4 ≤ tokens.length ∧ tokens[2]? = some "at".toList then some 4 else some 2
  else none

/-- The words with their spans. -/
def tokenTexts (input : List Char) : Option (List (List Char)) :=
  (tokenSpans input).mapM fun (start, stop) => range input start stop

/-- One byte behind the schedule, if there is one. -/
def cronCommandStart (linePrefix : List Char) : Option (Option ℕ) := do
  let trimmed := trimStart linePrefix
  let leading := byteLength linePrefix - byteLength trimmed
  let tokens ← tokenTexts trimmed
  match startAfter tokens with
  | none => pure none
  | some count =>
      if tokens.length < count then pure none
      else do
        let (_, stop) ← (tokenSpans trimmed)[count - 1]?
        pure (some (leading + stop + 1))

def cronCompletionCandidates (linePrefix word : List Char) : Option (Except Error (List (List Char))) := do
  match ← cronCommandStart linePrefix with
  | some commandStart => do
      let command ← behind linePrefix commandStart
      shellSegmentCompletionCandidates listing command word
  | none => pure (.ok (keywords.filter (word.isPrefixOf ·)))

def bareCompletionCandidates (mode : Mode) (linePrefix word : List Char) :
    Option (Except Error (List (List Char))) :=
  match mode with
  | .job => shellSegmentCompletionCandidates listing linePrefix word
  | .cron => cronCompletionCandidates listing linePrefix word

def builtinCommandCandidates (word : List Char) : List (List Char) :=
  let start := (stripPrefix [':'] word).getD word
  let names := commandSpecs.map (·.name.toList) ++ ["restart".toList]
  (names.filter (start.isPrefixOf ·)).map (':' :: ·)

def targetIdCandidates (command : List Char) (jobIds cronIds : List (List Char)) : List (List Char) :=
  if command ∈ [":out".toList, ":err".toList, ":tail".toList, ":retry".toList, ":fg".toList, ":watch".toList,
      ":wait".toList, ":send".toList] then jobIds
  else if command ∈ [":kill".toList, ":cancel".toList, ":pause".toList, ":resume".toList, ":log".toList] then
    jobIds ++ cronIds
  else []

/-- The candidates for a command line. -/
def commandLineCandidates (scope : CompletionScope) (trimmed word : List Char) : List (List Char) :=
  match splitWhitespace trimmed with
  | [] => builtinCommandCandidates word
  | first :: tokens =>
      if word.head? = some ':' ∧ tokens = [] then builtinCommandCandidates word
      else (targetIdCandidates first scope.jobIds scope.cronIds).filter (word.isPrefixOf ·)

def completionCandidates (scope : CompletionScope) : Option (Except Error (List (List Char))) := do
  let cursor := min scope.cursor (byteLength scope.content)
  let front ← upTo scope.content cursor
  let linePrefix ← range scope.content (InputLine.lineStart front) cursor
  let trimmed := trimStart linePrefix
  let word ← range scope.content scope.wordRange.1 scope.wordRange.2
  if trimmed.head? ≠ some ':' then bareCompletionCandidates listing scope.mode linePrefix word
  else pure (.ok (commandLineCandidates scope trimmed word))

end Candidates

section Replacement

/-- The bytes of the characters that two texts start with. -/
def sharedLen (front item : List Char) : ℕ :=
  (((front.zip item).takeWhile fun (a, b) => a == b).map fun (ch, _) => ch.utf8Size).sum

/-- `String::truncate`. -/
def truncate (text : List Char) (length : ℕ) : Option (List Char) :=
  if length ≤ byteLength text then upTo text length else some text

/-- The loop ends early when nothing is shared. -/
def sharedWith : List Char → List (List Char) → Option (List Char)
  | front, [] => some front
  | front, item :: items => do
      let front ← truncate front (sharedLen front item)
      if front = [] then pure [] else sharedWith front items

def sharedPrefix : List (List Char) → Option (List Char)
  | [] => some []
  | first :: items => sharedWith first items

def completionReplacement (candidates : List (List Char)) (word : List Char) : Option (Option (List Char)) :=
  match candidates with
  | [] => some none
  | [candidate] =>
      if candidate.getLast? = some '/' then some (some candidate) else some (some (candidate ++ [' ']))
  | candidates => do
      let shared ← sharedPrefix candidates
      pure (if byteLength word < byteLength shared then some shared else none)

end Replacement

end CueShell.Completion
