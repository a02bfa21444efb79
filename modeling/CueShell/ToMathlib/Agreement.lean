import Mathlib.Data.List.Forall2

/-! # Agreement of two computations

Two computations that may fail agree under a relation if both fail, or both succeed with related
results. Agreement goes through sequencing.
-/

/-- Both computations fail, or both succeed with related results. -/
inductive Agree {ε α β : Type} (R : α → β → Prop) : Except ε α → Except ε β → Prop
  | ok {a : α} {b : β} : R a b → Agree R (.ok a) (.ok b)
  | error {e e' : ε} : Agree R (.error e) (.error e')

namespace Agree

variable {ε α β α' β' : Type} {R : α → β → Prop} {S : α' → β' → Prop}
variable {x : Except ε α} {y : Except ε β} {f : α → Except ε α'} {g : β → Except ε β'}

theorem elim (agree : Agree R x y) :
    (∃ e e', x = .error e ∧ y = .error e') ∨ ∃ a b, x = .ok a ∧ y = .ok b ∧ R a b := by
  cases agree with
  | ok related => exact .inr ⟨_, _, rfl, rfl, related⟩
  | error => exact .inl ⟨_, _, rfl, rfl⟩

theorem bind (first : Agree R x y) (next : ∀ a b, R a b → Agree S (f a) (g b)) :
    Agree S (x >>= f) (y >>= g) := by
  cases first with
  | ok related => exact next _ _ related
  | error => exact .error

theorem mono {R' : α → β → Prop} (agree : Agree R x y) (weaker : ∀ a b, R a b → R' a b) : Agree R' x y := by
  cases agree with
  | ok related => exact .ok (weaker _ _ related)
  | error => exact .error

/-- Mapping a list in both computations. -/
theorem mapM {as : List α} {bs : List β} {f : α → Except ε α'} {g : β → Except ε β'}
    (related : List.Forall₂ R as bs) (each : ∀ a b, R a b → Agree S (f a) (g b)) :
    Agree (List.Forall₂ S) (as.mapM f) (bs.mapM g) := by
  induction related with
  | nil => exact .ok .nil
  | @cons a b as bs first _ ih =>
    rw [List.mapM_cons, List.mapM_cons]
    refine (each a b first).bind fun _ _ head => ih.bind fun _ _ tail => ?_
    exact .ok (.cons head tail)

end Agree
