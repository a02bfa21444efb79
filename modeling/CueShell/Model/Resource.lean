import CueShell.Model.Job
import CueShell.ToMathlib.Table
import CueShell.ToMathlib.Text

/-! # Resources

Quantities, the needs of a job, and what a provider answers to a reservation. Ordered maps are lists
in key order. The time at which a reservation was acquired is left out: nothing reads it.
-/

namespace CueShell

abbrev JobId := ℕ

def jobText (jobId : JobId) : String := "J" ++ toString jobId

theorem jobText_injective {first second : JobId} (same : jobText first = jobText second) :
    first = second := by
  have digits : Nat.toDigits 10 first = Nat.toDigits 10 second := by
    simpa [jobText, Nat.toList_repr] using congrArg String.toList same
  rw [← Nat.ofDigitChars_ten_toDigits (n := first), digits, Nat.ofDigitChars_ten_toDigits]

/-- The largest value of an unsigned 64-bit integer. -/
def u64Max : ℕ := 2 ^ 64 - 1

inductive ResourceQuantity where
  | count (number : ℕ)
  | bytes (number : ℕ)
deriving DecidableEq, Repr

/-- The largest unit that divides the number. -/
def formatBytesIec (bytes : ℕ) : String :=
  if bytes = 0 then "0B"
  else if bytes % 1024 ^ 4 = 0 then toString (bytes / 1024 ^ 4) ++ "TiB"
  else if bytes % 1024 ^ 3 = 0 then toString (bytes / 1024 ^ 3) ++ "GiB"
  else if bytes % 1024 ^ 2 = 0 then toString (bytes / 1024 ^ 2) ++ "MiB"
  else if bytes % 1024 = 0 then toString (bytes / 1024) ++ "KiB"
  else toString bytes ++ "B"

def ResourceQuantity.display : ResourceQuantity → String
  | .count number => toString number
  | .bytes number => formatBytesIec number

section Parse

inductive ParseQuantityReason where
  | empty
  | invalidNumber
  | invalidSuffix (suffix : String)
  | overflow
deriving DecidableEq, Repr

structure ParseQuantityError where
  input : String
  reason : ParseQuantityReason
deriving DecidableEq, Repr

def unitMultiplier (suffix : String) : Option ℕ :=
  if suffix ∈ ["B", "b"] then some 1
  else if suffix ∈ ["KiB", "Ki", "kiB", "ki"] then some 1024
  else if suffix ∈ ["MiB", "Mi", "miB", "mi"] then some (1024 ^ 2)
  else if suffix ∈ ["GiB", "Gi", "giB", "gi"] then some (1024 ^ 3)
  else if suffix ∈ ["TiB", "Ti", "tiB", "ti"] then some (1024 ^ 4)
  else if suffix ∈ ["PiB", "Pi", "piB", "pi"] then some (1024 ^ 5)
  else if suffix ∈ ["KB", "kB", "K", "k"] then some 1000
  else if suffix ∈ ["MB", "M"] then some (1000 ^ 2)
  else if suffix ∈ ["GB", "G"] then some (1000 ^ 3)
  else if suffix ∈ ["TB", "T"] then some (1000 ^ 4)
  else if suffix ∈ ["PB", "P"] then some (1000 ^ 5)
  else none

/-- Digits with underscores among them, and a unit behind. -/
def ResourceQuantity.fromStr (input : String) : Except ParseQuantityError ResourceQuantity :=
  let trimmed := Text.trim input.toList
  let inNumber (ch : Char) : Bool := ch.isDigit || ch == '_'
  let number := trimmed.takeWhile inNumber
  let suffix := String.ofList (Text.trim (trimmed.dropWhile inNumber))
  if trimmed = [] then .error ⟨input, .empty⟩
  else if number = [] then .error ⟨input, .invalidNumber⟩
  else
    match Text.parseDigits (2 ^ 64) (number.filter (· ≠ '_')) with
    | none => .error ⟨input, .invalidNumber⟩
    | some value =>
        if suffix = "" then .ok (.count value)
        else
          match unitMultiplier suffix with
          | none => .error ⟨input, .invalidSuffix suffix⟩
          | some multiplier =>
              if value * multiplier ≤ u64Max then .ok (.bytes (value * multiplier))
              else .error ⟨input, .overflow⟩

end Parse

/-- Requested quantities, ordered by key. -/
abbrev Need := List (String × ResourceQuantity)

namespace Need

def get (need : Need) (key : String) : Option ResourceQuantity :=
  (need.find? fun (name, _) => name == key).map Prod.snd

def contains (need : Need) (key : String) : Bool := (need.get key).isSome

/-- The entries under the selected keys. -/
def select (need : Need) (selected : List String) : Need :=
  need.filter fun (name, _) => selected.contains name

end Need

/-- What a provider grants. -/
structure Reservation where
  id : String
  jobId : JobId
  providerId : String
  /-- Environment variables for the process of the job. -/
  env : List (String × String) := []
  info : List (String × ResourceQuantity) := []
deriving DecidableEq, Repr

abbrev Grant := Reservation

/-- Why a provider grants nothing now. -/
structure Reject where
  reason : String
  needed : Option ResourceQuantity := none
  available : Option ResourceQuantity := none
  key : Option String := none
deriving DecidableEq, Repr

structure ReserveRequest where
  jobId : JobId
  need : Need
deriving DecidableEq, Repr

end CueShell
