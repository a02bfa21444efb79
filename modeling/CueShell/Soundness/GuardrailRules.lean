import CueShell.Model.Config

/-! # More rules, fewer commands

An exact name is looked up before the versioned stems, and its rule decides alone. So one more rule
takes a command line off the list of blocked ones in one case: the first rule for its exact name is an
argument pattern that the line does not match, and a versioned stem was what blocked it.
-/

namespace CueShell

section Map

variable {ν : Type}

theorem lookupKey_cons (name other : String) (value : ν) (rest : List (String × ν)) :
    lookupKey ((name, value) :: rest) other = if name = other then some value else lookupKey rest other := by
  by_cases same : name = other
  · simp [lookupKey, same]
  · simp [lookupKey, same]

theorem lookupKey_putKey (key other : String) (value : ν) (entries : List (String × ν)) :
    lookupKey (putKey key value entries) other =
      if key = other then some value else lookupKey entries other := by
  induction entries with
  | nil => simp [putKey, lookupKey_cons]
  | cons entry rest ih =>
    obtain ⟨name, old⟩ := entry
    rw [putKey]
    split
    · rename_i same
      subst same
      by_cases here : key = other <;> simp [lookupKey_cons, here]
    · rename_i differs
      split
      · rw [lookupKey_cons]
      · rw [lookupKey_cons, ih, lookupKey_cons]
        by_cases here : key = other
        · subst here
          simp [Ne.symm differs]
        · simp [here]

theorem mem_putKey {key : String} {value : ν} {entries : List (String × ν)}
    (new : lookupKey entries key = none) {entry : String × ν} :
    entry ∈ putKey key value entries ↔ entry = (key, value) ∨ entry ∈ entries := by
  induction entries with
  | nil => simp [putKey]
  | cons first rest ih =>
    obtain ⟨name, old⟩ := first
    rw [lookupKey_cons] at new
    by_cases same : key = name
    · simp [same] at new
    · rw [if_neg (Ne.symm same)] at new
      rw [putKey, if_neg same]
      split
      · simp
      · rw [List.mem_cons, ih new, List.mem_cons]
        tauto

theorem mem_putNew {key : String} {value : ν} {entries : List (String × ν)} {entry : String × ν}
    (member : entry ∈ entries) : entry ∈ putNew key value entries := by
  unfold putNew
  split
  · exact member
  · rename_i absent
    exact (mem_putKey (by simpa using absent)).mpr (.inr member)

end Map

namespace BlockConfig

variable {config : BlockConfig} {cmdName pattern hint : String} {args : List String}

/-- A pattern of the command forbids one of the arguments. -/
def MatchesArg (rules : List (String × String)) (args : List String) : Prop :=
  ∃ arg ∈ args, ∃ rule ∈ rules, blockedArgMatches arg rule.1

theorem checkArgs_isSome (rules : List (String × String)) :
    (checkArgs cmdName rules args).isSome ↔ MatchesArg rules args := by
  simp only [checkArgs, List.findSome?_isSome_iff, Option.isSome_map, List.find?_isSome, MatchesArg]

/-- A versioned stem covers a command. -/
def Versioned (config : BlockConfig) (base : String) : Prop :=
  ∃ rule ∈ config.versionedCommands, versionedCommandMatches base rule.1

/-- When a command line is blocked, by the rule of its exact name. -/
theorem check_isSome : (config.check (cmdName :: args)).isSome ↔
    match lookupKey config.commands (commandBase cmdName) with
    | some (.wholeCommand _) => True
    | some (.args rules) => MatchesArg rules args
    | none => config.Versioned (commandBase cmdName) := by
  rw [check]
  cases lookupKey config.commands (commandBase cmdName) with
  | none => simp [Versioned, List.find?_isSome]
  | some rule =>
    cases rule with
    | wholeCommand hint => simp
    | args rules => exact checkArgs_isSome rules

/-- A rule for another exact name changes nothing. -/
theorem check_putKey_other {name : String} {rule : BlockCommandRule}
    (other : name ≠ commandBase cmdName) :
    ({ config with commands := putKey name rule config.commands } : BlockConfig).check (cmdName :: args) =
      config.check (cmdName :: args) := by
  simp only [check, lookupKey_putKey, if_neg other]

/-- The rule under the exact name of the command decides. -/
theorem check_putKey_same {rule : BlockCommandRule} :
    (({ config with commands := putKey (commandBase cmdName) rule config.commands } :
      BlockConfig).check (cmdName :: args)).isSome ↔
      match rule with
      | .wholeCommand _ => True
      | .args rules => MatchesArg rules args := by
  rw [check_isSome]
  simp only [lookupKey_putKey, if_true]
  cases rule <;> rfl

theorem addRule_wholeCommand {name : String}
    (blocked : (config.check (cmdName :: args)).isSome) :
    ((config.addRule (.wholeCommand name hint)).check (cmdName :: args)).isSome := by
  rw [addRule]
  split
  · exact blocked
  · by_cases here : name = commandBase cmdName
    · subst here
      exact check_putKey_same.mpr trivial
    · rw [check_putKey_other here]
      exact blocked

theorem addRule_versionedStem {stem : String}
    (blocked : (config.check (cmdName :: args)).isSome) :
    ((config.addRule (.versionedStem stem hint)).check (cmdName :: args)).isSome := by
  rw [check_isSome] at blocked ⊢
  simp only [addRule]
  split at blocked
  · trivial
  · exact blocked
  · obtain ⟨rule, member, covers⟩ := blocked
    exact ⟨rule, mem_putNew member, covers⟩

/-- The added rule takes the place of a versioned stem and does not match. -/
def Shadows (config : BlockConfig) : Rule → List String → Prop
  | .argPattern name pattern _, cmdName :: args =>
      commandBase cmdName = name ∧ lookupKey config.commands name = none ∧ config.Versioned name ∧
        ¬ ∃ arg ∈ args, blockedArgMatches arg pattern
  | _, _ => False

theorem addRule_argPattern {name : String} :
    ((config.check (cmdName :: args)).isSome →
      ((config.addRule (.argPattern name pattern hint)).check (cmdName :: args)).isSome) ↔
      ¬ config.Shadows (.argPattern name pattern hint) (cmdName :: args) := by
  by_cases here : name = commandBase cmdName
  · subst here
    cases found : lookupKey config.commands (commandBase cmdName) with
    | none =>
      have before : (config.check (cmdName :: args)).isSome ↔ config.Versioned (commandBase cmdName) := by
        rw [check_isSome, found]
      simp only [addRule, found, check_putKey_same, before, Shadows, MatchesArg, List.mem_singleton,
        exists_eq_left, true_and, not_and_not_right]
    | some rule =>
      have spared : ¬ config.Shadows (.argPattern (commandBase cmdName) pattern hint) (cmdName :: args) := by
        simp [Shadows, found]
      refine iff_of_true (fun blocked => ?_) spared
      cases rule with
      | wholeCommand known => simpa only [addRule, found] using blocked
      | args rules =>
        rw [check_isSome, found] at blocked
        obtain ⟨arg, member, rule, listed, matched⟩ := blocked
        simp only [addRule, found, check_putKey_same]
        exact ⟨arg, member, rule, mem_putNew listed, matched⟩
  · have spared : ¬ config.Shadows (.argPattern name pattern hint) (cmdName :: args) :=
      fun shadows => here shadows.1.symm
    refine iff_of_true (fun blocked => ?_) spared
    rw [addRule]
    split
    · rw [check_putKey_other here]
      exact blocked
    · exact blocked
    · rw [check_putKey_other here]
      exact blocked

/-- One more rule keeps a blocked command line blocked, unless it shadows the stem that blocked it. -/
theorem blocked_stays_iff (config : BlockConfig) (rule : Rule) (commandLine : List String) :
    ((config.check commandLine).isSome → ((config.addRule rule).check commandLine).isSome) ↔
      ¬ config.Shadows rule commandLine := by
  cases commandLine with
  | nil =>
    refine iff_of_true (fun blocked => by cases blocked) ?_
    cases rule <;> exact id
  | cons cmdName args =>
    cases rule with
    | wholeCommand name hint => exact iff_of_true addRule_wholeCommand id
    | argPattern name pattern hint => exact addRule_argPattern
    | versionedStem stem hint => exact iff_of_true addRule_versionedStem id

/-- The versioned launchers of Python are blocked, until one of them gets an argument pattern. -/
theorem argPattern_unblocks :
    ¬ ((({ commands := [], versionedCommands := [("python", "use uv")] } : BlockConfig).check
        ["python3", "job.py"]).isSome →
      ((({ commands := [], versionedCommands := [("python", "use uv")] } : BlockConfig).addRule
        (.argPattern "python3" "-c" "write a script")).check ["python3", "job.py"]).isSome) := by
  decide

end BlockConfig

end CueShell
