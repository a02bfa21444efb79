import CueShell.ToMathlib.Slices

/-! # Aliases

The first words of a line that is not a command may be an alias for another text. The table is sorted
when it is loaded, the keys with the most words first. `none` is a panic.
-/

namespace CueShell

/-- An alias, from the key to the value. -/
structure AliasEntry where
  key : String
  value : String
deriving DecidableEq, Repr

def AliasEntry.words (entry : AliasEntry) : List (List Char) := Text.splitWhitespace entry.key.toList

structure AliasConfig where
  entries : List AliasEntry
deriving DecidableEq, Repr

/-- The sort is stable: keys with equally many words stay in the order of the map. -/
def AliasConfig.deserialize (map : List (String × String)) : AliasConfig where
  entries := (map.map fun (key, value) => (⟨key, value⟩ : AliasEntry)).mergeSort fun first second =>
    second.words.length ≤ first.words.length

/-- The byte ranges of the words of a text that starts at a position. -/
def tokenSpansFrom (pos : ℕ) : List Char → List (ℕ × ℕ)
  | [] => []
  | c :: rest =>
      if Text.isWhiteSpace c then tokenSpansFrom (pos + c.utf8Size) rest
      else
        let stop := pos + c.utf8Size + Text.byteLength (rest.takeWhile (!Text.isWhiteSpace ·))
        (pos, stop) :: tokenSpansFrom stop (rest.dropWhile (!Text.isWhiteSpace ·))
termination_by text => text.length
decreasing_by
  · simp
  · exact Nat.lt_succ_of_le (List.dropWhile_suffix _).length_le

def tokenSpans (input : List Char) : List (ℕ × ℕ) := tokenSpansFrom 0 input

section Apply

variable (input : List Char) (inputTokens : List (ℕ × ℕ))

/-- Whether the words of the key are the first words of the input. -/
def AliasEntry.matchesInput (entry : AliasEntry) : Option Bool := do
  let heads ← (inputTokens.take entry.words.length).mapM fun (start, stop) => Text.range input start stop
  pure (heads == entry.words)

/-- The input behind the words of the key; the last one is looked up at their number less one. -/
def AliasEntry.suffix (entry : AliasEntry) : Option (List Char) :=
  if entry.words.length = 0 then none
  else do
    let (_, suffixStart) ← inputTokens[entry.words.length - 1]?
    Text.behind input suffixStart

def applyEntries : List AliasEntry → Option (List Char)
  | [] => some input
  | entry :: entries =>
      if inputTokens.length < entry.words.length then applyEntries entries
      else do
        let found ← entry.matchesInput input inputTokens
        if found then do
          let suffix ← entry.suffix input inputTokens
          pure (entry.value.toList ++ suffix)
        else applyEntries entries

end Apply

def AliasConfig.apply (config : AliasConfig) (input : String) : Option String :=
  if config.entries = [] ∨ input.toList.head? = some ':' then some input
  else (applyEntries input.toList (tokenSpans input.toList) config.entries).map String.ofList

end CueShell
