import Mathlib.Data.Nat.Notation
import Mathlib.Control.Lawful

/-! # Computations that may fail or panic

An attempt returns a value, fails with an error, or does not come back: it panics or runs forever. It
matches a computation that can only fail if it ends as that computation does, with related values.
-/

/-- Return a value, fail, or panic (`none`). -/
abbrev Attempt (ε α : Type) := ExceptT ε Option α

namespace Attempt

variable {ε α β γ δ : Type}

def panic : Attempt ε α := ExceptT.mk none

/-- The attempt that ends as the computation does. -/
def ofExcept (result : Except ε α) : Attempt ε α := ExceptT.mk (some result)

/-- The value, or a panic where there is none. -/
def ofOption : Option α → Attempt ε α
  | some value => pure value
  | none => panic

/-- The attempt ends as the computation does, and their values are related. -/
def Matches (related : α → β → Prop) (attempt : Attempt ε α) : Except ε β → Prop
  | .ok value => ∃ own, attempt = pure own ∧ related own value
  | .error error => attempt = throw error

theorem ofOption_some (value : α) : (ofOption (some value) : Attempt ε α) = pure value := rfl

namespace Matches

variable {related : α → β → Prop} {later : γ → δ → Prop} {attempt : Attempt ε α} {result : Except ε β}

theorem ok {own : α} {value : β} (same : related own value) :
    Matches related (pure own : Attempt ε α) (.ok value) :=
  ⟨own, rfl, same⟩

theorem error (error : ε) : Matches related (throw error) (.error error) := rfl

/-- Matching attempts may be continued in matching ways. -/
theorem bind {next : α → Attempt ε γ} {next' : β → Except ε δ} (first : Matches related attempt result)
    (second : ∀ own value, related own value → Matches later (next own) (next' value)) :
    Matches later (attempt >>= next) (result >>= next') := by
  cases result with
  | error error =>
    obtain rfl : attempt = throw error := first
    rfl
  | ok value =>
    obtain ⟨own, rfl, same⟩ := first
    exact second own value same

theorem imp {weaker : α → β → Prop} (first : Matches related attempt result)
    (weaken : ∀ own value, related own value → weaker own value) : Matches weaker attempt result := by
  cases result with
  | error error => exact first
  | ok value =>
    obtain ⟨own, ends, same⟩ := first
    exact ⟨own, ends, weaken own value same⟩

/-- An attempt that matches something comes back. -/
theorem ends (first : Matches related attempt result) : ∃ outcome : Except ε α, attempt.run = some outcome := by
  cases result with
  | error error =>
    obtain rfl : attempt = throw error := first
    exact ⟨.error error, rfl⟩
  | ok value =>
    obtain ⟨own, rfl, -⟩ := first
    exact ⟨.ok own, rfl⟩

end Matches

/-- With equal values the attempt is the computation. -/
theorem matches_eq_iff {attempt : Attempt ε α} {result : Except ε α} :
    Matches Eq attempt result ↔ attempt = ofExcept result := by
  cases result with
  | error error => exact Iff.rfl
  | ok value =>
    constructor
    · rintro ⟨own, rfl, rfl⟩
      rfl
    · rintro rfl
      exact ⟨value, rfl, rfl⟩

end Attempt
