import Mathlib.Data.Nat.Notation
import Mathlib.Logic.Function.Basic

/-! # Texts with variables

A text of letters and variables stands for a text of letters once the variables have values. Texts that
stand for the same under all values of their variables are the same.
-/

namespace Terms

variable {α β : Type}

/-- What a text with variables stands for. -/
def evaluate (value : β → List α) (term : List (α ⊕ β)) : List α :=
  term.flatMap (Sum.elim (fun letter => [letter]) value)

/-- A text without variables. -/
def letters (text : List α) : List (α ⊕ β) := text.map Sum.inl

section Evaluate

variable {value : β → List α} {first second : List (α ⊕ β)}

@[simp] theorem evaluate_nil : evaluate value [] = [] := rfl

@[simp] theorem evaluate_letter (letter : α) (term : List (α ⊕ β)) :
    evaluate value (.inl letter :: term) = letter :: evaluate value term := rfl

@[simp] theorem evaluate_variable (name : β) (term : List (α ⊕ β)) :
    evaluate value (.inr name :: term) = value name ++ evaluate value term := rfl

theorem evaluate_append (first second : List (α ⊕ β)) :
    evaluate value (first ++ second) = evaluate value first ++ evaluate value second :=
  List.flatMap_append

theorem evaluate_letters (text : List α) : evaluate value (letters text) = text := by
  induction text with
  | nil => rfl
  | cons letter text ih => exact congrArg (letter :: ·) ih

end Evaluate

section Identity

variable {fixed : β → List α} {first second : List (α ⊕ β)}

/-- The values agree with given ones but on the variables of two texts. -/
def Varies (fixed : β → List α) (first second : List (α ⊕ β)) (value : β → List α) : Prop :=
  ∀ name, .inr name ∉ first → .inr name ∉ second → value name = fixed name

theorem Varies.cons {value : β → List α} {head head' : α ⊕ β} (varies : Varies fixed first second value) :
    Varies fixed (head :: first) (head' :: second) value := fun name outside outside' =>
  varies name (fun member => outside (List.mem_cons_of_mem _ member))
    (fun member => outside' (List.mem_cons_of_mem _ member))

variable [DecidableEq β]

theorem varies_update {name : β} (text : List α) (inside : .inr name ∈ first ∨ .inr name ∈ second) :
    Varies fixed first second (Function.update fixed name text) := by
  intro other outside outside'
  refine Function.update_of_ne ?_ ..
  rintro rfl
  exact inside.elim outside outside'

/-- A text with something in it stands for something under some values. -/
theorem exists_evaluate_ne_nil (fixed : β → List α) (rest : List (α ⊕ β)) (letter : α) (head : α ⊕ β) :
    ∃ value, (∀ name, head ≠ .inr name → value name = fixed name) ∧ evaluate value (head :: rest) ≠ [] := by
  cases head with
  | inl other => exact ⟨fixed, fun _ _ => rfl, List.cons_ne_nil _ _⟩
  | inr name =>
    refine ⟨Function.update fixed name [letter], fun other differ => ?_, ?_⟩
    · exact Function.update_of_ne (fun same => differ (by rw [same])) ..
    · rw [evaluate_variable, Function.update_self]
      exact List.cons_ne_nil _ _

/-- Texts that stand for the same whatever their variables stand for are the same. -/
theorem eq_of_evaluate [Nontrivial α] (fixed : β → List α) {first second : List (α ⊕ β)}
    (same : ∀ value, Varies fixed first second value → evaluate value first = evaluate value second) :
    first = second := by
  obtain ⟨a, b, differ⟩ := exists_pair_ne α
  induction first generalizing second with
  | nil =>
    cases second with
    | nil => rfl
    | cons head rest =>
      obtain ⟨value, keeps, filled⟩ := exists_evaluate_ne_nil fixed rest a head
      exact absurd (same value fun name _ outside' =>
        keeps name fun equal => outside' (by rw [equal]; exact List.mem_cons_self)).symm filled
  | cons head rest ih =>
    cases second with
    | nil =>
      obtain ⟨value, keeps, filled⟩ := exists_evaluate_ne_nil fixed rest a head
      exact absurd (same value fun name outside _ =>
        keeps name fun equal => outside (by rw [equal]; exact List.mem_cons_self)) filled
    | cons head' rest' =>
      -- A letter and a variable differ where the variable starts with another letter.
      have apart (letter : α) : ∃ other, letter ≠ other := by
        by_cases first : letter = a
        · exact ⟨b, by rwa [first]⟩
        · exact ⟨a, first⟩
      have heads : head = head' := by
        cases head with
        | inl letter =>
          cases head' with
          | inl letter' =>
            have total := same fixed fun _ _ _ => rfl
            rw [(List.cons.inj total).1]
          | inr name =>
            obtain ⟨other, apart⟩ := apart letter
            have total := same (Function.update fixed name [other])
              (varies_update _ (.inr List.mem_cons_self))
            rw [evaluate_letter, evaluate_variable, Function.update_self] at total
            exact absurd (List.cons.inj total).1 apart
        | inr name =>
          cases head' with
          | inl letter =>
            obtain ⟨other, apart⟩ := apart letter
            have total := same (Function.update fixed name [other])
              (varies_update _ (.inl List.mem_cons_self))
            rw [evaluate_letter, evaluate_variable, Function.update_self] at total
            exact absurd (List.cons.inj total).1.symm apart
          | inr name' =>
            by_contra names
            have names : name ≠ name' := fun equal => names (by rw [equal])
            have total := same (Function.update (Function.update fixed name [a]) name' [b]) <| by
              intro other outside outside'
              rw [Function.update_of_ne, Function.update_of_ne]
              · rintro rfl
                exact outside List.mem_cons_self
              · rintro rfl
                exact outside' List.mem_cons_self
            rw [evaluate_variable, evaluate_variable, Function.update_self, Function.update_of_ne names,
              Function.update_self] at total
            exact differ (List.cons.inj total).1
      subst heads
      refine congrArg (head :: ·) (ih fun value varies => ?_)
      have total := same value varies.cons
      cases head with
      | inl letter => exact (List.cons.inj total).2
      | inr name => exact List.append_cancel_left total

end Identity

end Terms
