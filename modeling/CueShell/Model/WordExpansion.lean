import CueShell.Model.Config
import CueShell.Model.Scope

/-! # Tilde and variable expansion

The words of a command line are expanded when its process is spawned, under the snapshot of its scope:
first a leading tilde, then the variables of the text that results. The loop over the text takes one
piece of it after another; what a piece stands for depends on the snapshot, what it is does not.
-/

namespace CueShell

variable (snapshot : Option EnvSnapshot)

def lookupEnv (key : String) : Option String := snapshot.bind fun snapshot => lookupKey snapshot.env key

/-- `PathBuf::join`. -/
def pathJoin (base path : List Char) : List Char :=
  if path.head? = some '/' then path
  else if base.getLast?.any (· ≠ '/') then base ++ '/' :: path
  else base ++ path

def expandTilde (word : List Char) : List Char :=
  match lookupEnv snapshot "HOME" with
  | none => word
  | some home =>
      if word = ['~'] then home.toList
      else match Text.stripPrefix ['~', '/'] word with
        | none => word
        | some rest => pathJoin home.toList rest

def isVarStart (ch : Char) : Bool := ch == '_' || ch.isAlpha

def isVarContinue (ch : Char) : Bool := ch == '_' || ch.isAlphanum

def isValidVarName : List Char → Bool
  | [] => false
  | ch :: rest => isVarStart ch && rest.all isVarContinue

/-- What one turn of the loop of `expandVars` takes from the text. -/
inductive WordPiece where
  /-- Characters that stand for themselves. -/
  | text (chars : List Char)
  /-- A dollar behind a backslash. -/
  | escape
  | reference (name : List Char) (braced : Bool)
deriving DecidableEq, Repr

/-- The piece that starts with a character, and the text behind it. -/
def nextPiece (ch : Char) (rest : List Char) : WordPiece × List Char :=
  if ch = '\\' ∧ rest.head? = some '$' then (.escape, rest.tail)
  else if ch = '$' then
    match rest with
    | [] => (.text ['$'], [])
    | next :: rest =>
        if next = '{' then
          let name := rest.takeWhile (· ≠ '}')
          match rest.dropWhile (· ≠ '}') with
          | [] => (.text ('$' :: '{' :: name), [])
          | close :: after =>
              if isValidVarName name then (.reference name true, after)
              else (.text ('$' :: '{' :: (name ++ [close])), after)
        else if isVarStart next then
          (.reference (next :: rest.takeWhile isVarContinue) false, rest.dropWhile isVarContinue)
        else (.text ['$'], next :: rest)
  else (.text [ch], rest)

/-- The pieces that can be taken, one by one. -/
inductive PieceTaken : Char → List Char → WordPiece → List Char → Prop
  | escape (rest : List Char) : PieceTaken '\\' ('$' :: rest) .escape rest
  | braced {name : List Char} (after : List Char) (inside : '}' ∉ name)
      (valid : isValidVarName name = true) :
      PieceTaken '$' ('{' :: (name ++ '}' :: after)) (.reference name true) after
  | invalid {name : List Char} (after : List Char) (inside : '}' ∉ name)
      (invalid : isValidVarName name = false) :
      PieceTaken '$' ('{' :: (name ++ '}' :: after)) (.text ('$' :: '{' :: (name ++ ['}']))) after
  | unclosed {name : List Char} (inside : '}' ∉ name) :
      PieceTaken '$' ('{' :: name) (.text ('$' :: '{' :: name)) []
  | named {first : Char} {name : List Char} {after : List Char} (start : isVarStart first = true)
      (continues : ∀ c ∈ name, isVarContinue c = true)
      (stops : ∀ c ∈ after.head?, isVarContinue c = false) :
      PieceTaken '$' (first :: (name ++ after)) (.reference (first :: name) false) after
  | plain {ch : Char} {rest : List Char} (escapes : ch = '\\' → rest.head? ≠ some '$')
      (refers : ch = '$' → ∀ c ∈ rest.head?, c ≠ '{' ∧ isVarStart c = false) :
      PieceTaken ch rest (.text [ch]) rest

theorem not_isVarStart_brace : isVarStart '{' = false := by decide

theorem split_at_brace (rest : List Char) :
    (∃ name after, rest = name ++ '}' :: after ∧ '}' ∉ name ∧
      rest.takeWhile (· ≠ '}') = name ∧ rest.dropWhile (· ≠ '}') = '}' :: after) ∨
    ('}' ∉ rest ∧ rest.takeWhile (· ≠ '}') = rest ∧ rest.dropWhile (· ≠ '}') = []) := by
  induction rest with
  | nil => exact .inr ⟨List.not_mem_nil, rfl, rfl⟩
  | cons ch rest ih =>
    by_cases close : ch = '}'
    · subst close
      exact .inl ⟨[], rest, rfl, List.not_mem_nil, rfl, rfl⟩
    · rcases ih with ⟨name, after, rfl, inside, taken, dropped⟩ | ⟨inside, taken, dropped⟩
      · refine .inl ⟨ch :: name, after, rfl, by simp [Ne.symm close, inside], ?_, ?_⟩
        · rw [List.takeWhile_cons_of_pos (by simpa using close), taken]
        · rw [List.dropWhile_cons_of_pos (by simpa using close), dropped]
      · refine .inr ⟨by simp [Ne.symm close, inside], ?_, ?_⟩
        · rw [List.takeWhile_cons_of_pos (by simpa using close), taken]
        · rw [List.dropWhile_cons_of_pos (by simpa using close), dropped]

theorem nextPiece_taken (ch : Char) (rest : List Char) :
    PieceTaken ch rest (nextPiece ch rest).1 (nextPiece ch rest).2 := by
  unfold nextPiece
  by_cases escaped : ch = '\\' ∧ rest.head? = some '$'
  · rw [if_pos escaped]
    obtain ⟨rfl, dollar⟩ := escaped
    obtain ⟨tail, rfl⟩ := List.head?_eq_some_iff.mp dollar
    exact .escape tail
  rw [if_neg escaped]
  by_cases dollar : ch = '$'
  · rw [if_pos dollar]
    subst dollar
    cases rest with
    | nil => exact .plain (by simp) (by simp)
    | cons next rest =>
      dsimp only
      by_cases brace : next = '{'
      · rw [if_pos brace]
        subst brace
        rcases split_at_brace rest with ⟨name, after, rfl, inside, taken, dropped⟩ |
          ⟨inside, taken, dropped⟩
        · rw [taken, dropped]
          dsimp only
          by_cases valid : isValidVarName name
          · rw [if_pos valid]
            exact .braced after inside valid
          · rw [if_neg valid]
            exact .invalid after inside (by simpa using valid)
        · rw [taken, dropped]
          exact .unclosed inside
      · rw [if_neg brace]
        by_cases start : isVarStart next
        · rw [if_pos start]
          have whole : rest.takeWhile isVarContinue ++ rest.dropWhile isVarContinue = rest :=
            List.takeWhile_append_dropWhile
          nth_rewrite 1 [← whole]
          refine .named start (fun c member => ?_) fun c head => ?_
          · exact List.all_eq_true.mp List.all_takeWhile c member
          · have stops := List.head?_dropWhile_not isVarContinue rest
            rw [Option.mem_def.mp head] at stops
            simpa using stops
        · rw [if_neg start]
          refine .plain (by simp) fun _ c head => ?_
          cases head
          exact ⟨brace, by simpa using start⟩
  · rw [if_neg dollar]
    exact .plain (fun slash head => escaped ⟨slash, head⟩) fun equal => absurd equal dollar

theorem PieceTaken.shorter {ch : Char} {rest after : List Char} {piece : WordPiece}
    (taken : PieceTaken ch rest piece after) : after.length ≤ rest.length := by
  cases taken <;> simp <;> omega

/-- The pieces of a text. -/
def wordPieces : List Char → List WordPiece
  | [] => []
  | ch :: rest => (nextPiece ch rest).1 :: wordPieces (nextPiece ch rest).2
termination_by word => word.length
decreasing_by exact Nat.lt_succ_of_le (nextPiece_taken ch rest).shorter

/-- What a piece stands for; a variable that is not set stands for nothing. -/
def WordPiece.expand : WordPiece → List Char
  | .text chars => chars
  | .escape => ['$']
  | .reference name _ => ((lookupEnv snapshot (String.ofList name)).getD "").toList

def expandVars (word : List Char) : List Char := (wordPieces word).flatMap (WordPiece.expand snapshot)

def expandWord (word : String) : String :=
  String.ofList (expandVars snapshot (expandTilde snapshot word.toList))

def expandCommandLine (commandLine : List String) : List String :=
  commandLine.map (expandWord snapshot)

/-- The argument vector of a segment of a pipeline, if there is a program to spawn. -/
def expandSegment (command : List String) (snapshot : EnvSnapshot) : Option (List String) :=
  let commandLine := expandCommandLine (some snapshot) command
  if commandLine.head?.any (· ≠ "") then some commandLine else none

end CueShell
