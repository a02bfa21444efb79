import CueShell.Model.Scheduler.Queries
import CueShell.ToMathlib.Slices

/-! # Limiting a text, byte by byte

The limits on the text of an answer as the source computes them: a loop that moves a byte position to the
next boundary, and a slice from there. `none` is a slice off a boundary, or a loop that is not done after the
given number of rounds.
-/

namespace CueShell

/-- `while !text.is_char_boundary(start) { start += 1 }`. -/
def nextBoundary (text : List Char) : ℕ → ℕ → Option ℕ
  | 0, _ => none
  | rounds + 1, start =>
      if Text.isCharBoundary (Text.utf8 text) start then some start
      else nextBoundary text rounds (start + 1)

def tailUtf8Checked (rounds : ℕ) (text : String) (maxBytes : ℕ) : Option (String × Bool) :=
  if maxBytes = 0 then some ("", text ≠ "")
  else if Text.byteLength text.toList ≤ maxBytes then some (text, false)
  else do
    let start ← nextBoundary text.toList rounds (Text.byteLength text.toList - maxBytes)
    let tail ← Text.behind text.toList start
    pure (String.ofList tail, true)

def limitTextChecked (rounds : ℕ) (text : String) (lineLimit tailBytes : Option ℕ) :
    Option (String × Bool) := do
  let (text, byteTruncated) ← tailBytes.elim (some (text, false)) (tailUtf8Checked rounds text)
  match lineLimit with
  | none => pure (text, byteTruncated)
  | some limit =>
      let lines := textLines text.toList
      if lines.length ≤ limit then pure (text, byteTruncated)
      else pure ("\n".intercalate ((lines.drop (lines.length - limit)).map String.ofList), true)

end CueShell
