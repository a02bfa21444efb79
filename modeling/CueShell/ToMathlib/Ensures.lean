import Mathlib.Logic.Basic

/-! # Pre- and postconditions of state programs

`Ensures program state post` says that the program, run from `state`, ends with a result and a state
that satisfy `post`. The rules follow the shape of a `do` block: one for `bind`, one for each access
to the state, and one for a loop over a list.
-/

variable {σ α β : Type}

/-- The program ends with a result and a state that satisfy `post`. -/
def Ensures (program : StateM σ α) (state : σ) (post : α → σ → Prop) : Prop :=
  post (program state).1 (program state).2

namespace Ensures

variable {program : StateM σ α} {next : α → StateM σ β} {state : σ}
variable {post middle : α → σ → Prop} {final : β → σ → Prop}

theorem mono (ensured : Ensures program state middle)
    (weaker : ∀ result after, middle result after → post result after) :
    Ensures program state post :=
  weaker _ _ ensured

theorem and (ensured : Ensures program state post) (also : Ensures program state middle) :
    Ensures program state fun result after => post result after ∧ middle result after :=
  ⟨ensured, also⟩

protected theorem pure {result : α} (holds : post result state) :
    Ensures (pure result) state post :=
  holds

theorem bind (first : Ensures program state middle)
    (rest : ∀ result after, middle result after → Ensures (next result) after final) :
    Ensures (program >>= next) state final :=
  rest _ _ first

theorem get {next : σ → StateM σ β} (rest : Ensures (next state) state final) :
    Ensures (MonadState.get >>= next) state final :=
  rest

theorem modify {change : σ → σ} {next : PUnit → StateM σ β}
    (rest : Ensures (next ⟨⟩) (change state) final) :
    Ensures (modifyGet (fun before => (⟨⟩, change before)) >>= next) state final :=
  rest

/-- A loop keeps what every round keeps. -/
theorem forM {items : List α} {body : α → StateM σ PUnit} {invariant : σ → Prop}
    (start : invariant state)
    (round : ∀ item ∈ items, ∀ before, invariant before →
      Ensures (body item) before fun _ after => invariant after) :
    Ensures (items.forM body) state fun _ after => invariant after := by
  induction items generalizing state with
  | nil => exact start
  | cons item rest ih =>
    refine bind (round item (List.mem_cons_self ..) state start) fun _ after kept => ?_
    exact ih kept fun other member => round other (List.mem_cons_of_mem _ member)

end Ensures
