import CueShell.Model.Config

/-! # The base name of a path

A path is named by its last part. What stands in front of a slash matters to the name only when nothing
behind the slash names anything; a part that goes up has no name, and then the whole path stands for
its base.
-/

namespace CueShell

variable {lead rest name path : List Char}

/-- The last part of a path that is a step. -/
def lastPart (path : List Char) : Option (List Char) :=
  ((path.splitOn '/').filter fun part => part ≠ [] ∧ part ≠ ['.']).getLast?

/-- The name of a path, where it has one. -/
def pathName (path : List Char) : Option (List Char) :=
  (lastPart path).bind fun part => if part = ['.', '.'] then none else some part

def pathBase (path : List Char) : List Char := (pathName path).getD path

theorem fileName_eq (path : String) : fileName path = (pathName path.toList).map String.ofList := by
  unfold fileName pathName
  split
  · rename_i up
    have last : lastPart path.toList = some ['.', '.'] := up
    simp [last]
  · rename_i none
    have last : lastPart path.toList = Option.none := none
    simp [last]
  · rename_i part differs found
    have last : lastPart path.toList = some part := found
    have other : part ≠ ['.', '.'] := differs
    simp [last, other]

theorem commandBase_eq (name : String) : commandBase name = String.ofList (pathBase name.toList) := by
  rw [commandBase, fileName_eq, pathBase]
  cases pathName name.toList with
  | none => simp
  | some part => rfl

theorem lastPart_slash (lead rest : List Char) :
    lastPart (lead ++ '/' :: rest) = (lastPart rest).or (lastPart lead) := by
  rw [lastPart, List.splitOn_append_cons_self, List.filter_append, List.getLast?_append]
  rfl

/-- A single step. -/
theorem lastPart_single (slash : '/' ∉ name) (step : ∃ c ∈ name, c ≠ '.') :
    lastPart name = some name := by
  obtain ⟨c, member, other⟩ := step
  have real : name ≠ [] := List.ne_nil_of_mem member
  have here : name ≠ ['.'] := by
    rintro rfl
    exact other (List.mem_singleton.mp member)
  rw [lastPart, List.splitOn_eq_singleton slash]
  simp [real, here]

theorem lastPart_of_pathName (found : pathName path = some name) :
    lastPart path = some name ∧ name ≠ ['.', '.'] := by
  obtain ⟨part, last, kept⟩ := Option.bind_eq_some_iff.mp found
  split at kept
  · cases kept
  · rename_i other
    cases kept
    exact ⟨last, other⟩

theorem pathBase_of_lastPart (last : lastPart path = some name) (other : name ≠ ['.', '.']) :
    pathBase path = name := by
  simp [pathBase, pathName, last, other]

theorem pathBase_of_up (last : lastPart path = some ['.', '.']) : pathBase path = path := by
  simp [pathBase, pathName, last]

theorem pathBase_of_none (last : lastPart path = none) : pathBase path = path := by
  simp [pathBase, pathName, last]

/-- What stands in front of a slash does not matter when a name stands behind it. -/
theorem pathBase_slash (lead : List Char) (named : (pathName rest).isSome) :
    pathBase (lead ++ '/' :: rest) = pathBase rest := by
  obtain ⟨name, found⟩ := Option.isSome_iff_exists.mp named
  obtain ⟨last, differs⟩ := lastPart_of_pathName found
  have whole : lastPart (lead ++ '/' :: rest) = some name := by rw [lastPart_slash, last]; rfl
  rw [pathBase_of_lastPart whole differs, pathBase_of_lastPart last differs]

theorem pathBase_eq_nil (base : pathBase path = []) : path = [] := by
  unfold pathBase at base
  cases found : pathName path with
  | none => simpa [found] using base
  | some name =>
    rw [found, Option.getD_some] at base
    subst base
    obtain ⟨last, -⟩ := lastPart_of_pathName found
    have kept := List.mem_of_getLast? last
    simp at kept

/-- The last part of a path whose end is cut off: a lead that is empty or ends in a slash, then a text
without a slash. -/
structure LastStep (path lead step : List Char) : Prop where
  whole : path = lead ++ step
  closed : lead = [] ∨ lead.getLast? = some '/'
  slash : '/' ∉ step

theorem LastStep.lastPart {step : List Char} (cut : LastStep path lead step)
    (solid : ∃ c ∈ step, c ≠ '.') {more : List Char} (slash : '/' ∉ more) :
    lastPart (path ++ more) = some (step ++ more) := by
  have single : CueShell.lastPart (step ++ more) = some (step ++ more) := by
    refine lastPart_single (by simp [cut.slash, slash]) ?_
    obtain ⟨c, member, other⟩ := solid
    exact ⟨c, List.mem_append_left _ member, other⟩
  rw [cut.whole, List.append_assoc]
  rcases cut.closed with rfl | closed
  · exact single
  · obtain ⟨front, rfl⟩ := List.getLast?_eq_some_iff.mp closed
    rw [List.append_assoc, List.singleton_append, lastPart_slash, single]
    rfl

/-- No name stands behind a slash of a text. -/
def Nameless (rest : List Char) : Prop :=
  ∀ before behind, rest = before ++ '/' :: behind → pathName behind = none

/-- Behind a last step a nameless text gives the step a fixed tail, or takes the name away. -/
theorem Nameless.base_cases (nameless : Nameless rest) :
    (∃ more, ∀ path lead step, LastStep path lead step → (∃ c ∈ step, c ≠ '.') →
      pathBase (path ++ rest) = step ++ more) ∨
    ∀ path lead step, LastStep path lead step → (∃ c ∈ step, c ≠ '.') →
      pathBase (path ++ rest) = path ++ rest := by
  by_cases slash : '/' ∈ rest
  · obtain ⟨more, behind, rfl, clean⟩ := List.eq_append_cons_of_mem slash
    have unnamed := nameless more behind rfl
    cases last : lastPart behind with
    | none =>
      refine .inl ⟨more, fun path lead step cut solid => ?_⟩
      have whole : lastPart (path ++ (more ++ '/' :: behind)) = some (step ++ more) := by
        rw [← List.append_assoc, lastPart_slash, last, cut.lastPart solid clean]
        rfl
      refine pathBase_of_lastPart whole ?_
      obtain ⟨c, member, other⟩ := solid
      intro up
      have inside : c ∈ ['.', '.'] := up ▸ List.mem_append_left _ member
      simp [other] at inside
    | some name =>
      have up : name = ['.', '.'] := by
        simp only [pathName, last] at unnamed
        simpa using unnamed
      subst up
      refine .inr fun path lead step cut solid => pathBase_of_up ?_
      rw [← List.append_assoc, lastPart_slash, last]
      rfl
  · refine .inl ⟨rest, fun path lead step cut solid => ?_⟩
    refine pathBase_of_lastPart (cut.lastPart solid slash) ?_
    obtain ⟨c, member, other⟩ := solid
    intro up
    have inside : c ∈ ['.', '.'] := up ▸ List.mem_append_left _ member
    simp [other] at inside

/-- Paths that end in the same nameless text differ in their base when their last steps and they
themselves differ in length. -/
theorem Nameless.base_ne {path' lead' step step' : List Char} (nameless : Nameless rest)
    (cut : LastStep path lead step) (solid : ∃ c ∈ step, c ≠ '.')
    (cut' : LastStep path' lead' step') (solid' : ∃ c ∈ step', c ≠ '.')
    (steps : step.length ≠ step'.length) (paths : path.length ≠ path'.length) :
    pathBase (path ++ rest) ≠ pathBase (path' ++ rest) := by
  intro same
  rcases nameless.base_cases with ⟨more, bases⟩ | bases
  · rw [bases path lead step cut solid, bases path' lead' step' cut' solid'] at same
    exact steps (congrArg List.length (List.append_cancel_right same))
  · rw [bases path lead step cut solid, bases path' lead' step' cut' solid'] at same
    exact paths (congrArg List.length (List.append_cancel_right same))

end CueShell
