import CueShell.Proofs.ExpandedNames
import CueShell.Soundness.GuardrailRules

/-! # Guardrails and the vector that is spawned

The words of a command line are checked as they were submitted and spawned as they expand. A line that
passes under every configuration still passes after expansion exactly when no snapshot can give the
program another base name and every form that an argument can take is covered by an argument that was
checked.
-/

namespace CueShell

variable {program : String} {args : List String}

/-- Whatever passes the block check passes it again as the vector that is spawned. -/
def SurvivesExpansion (line : List String) : Prop :=
  ∀ (config : BlockConfig) (snapshot : EnvSnapshot) (vector : List String),
    config.check line = none → expandSegment line snapshot = some vector →
      config.check vector = none

/-- The text of a word with its escapes resolved. -/
def unescaped (word : List Char) : List Char :=
  (wordPieces word).flatMap fun
    | .escape => ['$']
    | piece => piece.raw

/-- The forms of a word without references: a home directory that is set falls away in front of an
absolute path. -/
def plainForms (word : List Char) : List (List Char) :=
  unescaped word :: if ['~', '/', '/'] <+: word then [unescaped (word.drop 2)] else []

/-- No value of a variable becomes part of the word. -/
structure Environmentless (word : List Char) : Prop where
  references : ∀ name braced, .reference name braced ∉ wordPieces word
  home : Tilded word → ['~', '/', '/'] <+: word

/-- Every form of every argument is covered by an argument as it was submitted. -/
def KeepsArgs (args : List String) : Prop :=
  ∀ arg ∈ args, Environmentless arg.toList ∧
    ∀ form ∈ plainForms arg.toList, ∃ given ∈ args, blockedArgMatches given (String.ofList form)

def KeepsVerdict : List String → Prop
  | [] => True
  | program :: args => program = "" ∨ KeepsBase program.toList ∧ KeepsArgs args

section Configurations

theorem blockedArgMatches_self (arg : String) : blockedArgMatches arg arg := by
  simp [blockedArgMatches]

theorem blockedArgMatches_trans {arg middle pattern : String} (first : blockedArgMatches arg middle)
    (second : blockedArgMatches middle pattern) : blockedArgMatches arg pattern := by
  simp only [blockedArgMatches, Bool.or_eq_true, beq_iff_eq, List.isPrefixOf_iff_prefix] at *
  rcases first with rfl | leads
  · exact second
  rcases second with rfl | leads'
  · exact .inr leads
  · refine .inr (leads'.trans (List.IsPrefix.trans ?_ leads))
    rw [String.toList_append]
    exact List.prefix_append _ _

/-- A match is no longer than what it matches. -/
theorem length_le_of_matches {arg pattern : String} (found : blockedArgMatches arg pattern) :
    pattern.toList.length ≤ arg.toList.length := by
  simp only [blockedArgMatches, Bool.or_eq_true, beq_iff_eq, List.isPrefixOf_iff_prefix] at found
  rcases found with rfl | leads
  · exact Nat.le_refl _
  · have bound := leads.length_le
    rw [String.toList_append, List.length_append] at bound
    omega

/-- All configurations that let one line pass let another pass: its program has the same base, and every
argument of it is covered. -/
theorem passes_iff {other : String} {others : List String} :
    (∀ config : BlockConfig, config.check (program :: args) = none →
      config.check (other :: others) = none) ↔
    commandBase other = commandBase program ∧
      ∀ arg ∈ others, ∃ given ∈ args, blockedArgMatches given arg := by
  constructor
  · intro passes
    have base : commandBase other = commandBase program := by
      by_contra differs
      have pass := passes ⟨[(commandBase other, .wholeCommand "")], []⟩
        (by simp [BlockConfig.check, differs, lookupKey])
      simp [BlockConfig.check, lookupKey_cons] at pass
    refine ⟨base, fun arg member => ?_⟩
    by_contra uncovered
    simp only [not_exists, not_and] at uncovered
    have free : (BlockConfig.mk [(commandBase program, .args [(arg, "")])] []).check (program :: args) = none := by
      rw [← Option.not_isSome_iff_eq_none, BlockConfig.check_isSome, lookupKey_cons, if_pos rfl]
      rintro ⟨given, there, rule, listed, found⟩
      rw [List.mem_singleton.mp listed] at found
      exact uncovered given there found
    have pass := passes _ free
    rw [← Option.not_isSome_iff_eq_none, BlockConfig.check_isSome, base, lookupKey_cons, if_pos rfl] at pass
    exact pass ⟨arg, member, _, List.mem_singleton.mpr rfl, blockedArgMatches_self arg⟩
  · rintro ⟨base, covered⟩ config pass
    rw [← Option.not_isSome_iff_eq_none, BlockConfig.check_isSome] at pass ⊢
    rw [base]
    cases listed : lookupKey config.commands (commandBase program) with
    | none => simpa only [listed] using pass
    | some rule =>
      rw [listed] at pass
      cases rule with
      | wholeCommand hint => exact absurd trivial pass
      | args rules =>
        rintro ⟨arg, member, rule, listed, found⟩
        obtain ⟨given, there, covers⟩ := covered arg member
        exact pass ⟨given, there, rule, listed, blockedArgMatches_trans covers found⟩

theorem expandSegment_eq_some {snapshot : EnvSnapshot} {vector : List String} :
    expandSegment (program :: args) snapshot = some vector ↔
      expandWord (some snapshot) program ≠ "" ∧
        vector = expandWord (some snapshot) program :: args.map (expandWord (some snapshot)) := by
  simp only [expandSegment, expandCommandLine, List.map_cons, List.head?_cons, Option.any_some]
  split
  · rename_i real
    simp only [Option.some.injEq]
    exact ⟨fun equal => ⟨by simpa using real, equal.symm⟩, fun both => both.2.symm⟩
  · rename_i empty
    simp only [reduceCtorEq, false_iff]
    exact fun both => empty (by simpa using both.1)

/-- What has to hold under one snapshot. -/
def KeepsUnder (program : String) (args : List String) (snapshot : EnvSnapshot) : Prop :=
  commandBase (expandWord (some snapshot) program) = commandBase program ∧
    ∀ arg ∈ args, ∃ given ∈ args, blockedArgMatches given (expandWord (some snapshot) arg)

theorem survivesExpansion_cons : SurvivesExpansion (program :: args) ↔
    ∀ snapshot, expandWord (some snapshot) program ≠ "" → KeepsUnder program args snapshot := by
  constructor
  · intro survives snapshot real
    obtain ⟨base, covered⟩ := passes_iff.mp fun config pass =>
      survives config snapshot _ pass (expandSegment_eq_some.mpr ⟨real, rfl⟩)
    exact ⟨base, fun arg member => covered _ (List.mem_map_of_mem member)⟩
  · intro keeps config snapshot vector pass spawned
    obtain ⟨real, rfl⟩ := expandSegment_eq_some.mp spawned
    obtain ⟨base, covered⟩ := keeps snapshot real
    refine passes_iff.mpr ⟨base, fun arg member => ?_⟩ config pass
    obtain ⟨word, there, rfl⟩ := List.mem_map.mp member
    exact covered word there

end Configurations

section Snapshots

variable {size : ℕ} {names : List String} {word : List Char}

/-- A snapshot that gives the same long value to all of some names. -/
def longSnapshot (size : ℕ) (names : List String) : EnvSnapshot where
  env := names.foldr (fun name env => putKey name (longValue size) env) []
  cwd := "/"

theorem lookupEnv_longSnapshot {name : String} (member : name ∈ names) :
    lookupEnv (some (longSnapshot size names)) name = some (longValue size) := by
  rw [lookupEnv, Option.bind_some, longSnapshot]
  dsimp only
  induction names with
  | nil => cases member
  | cons first names ih =>
    rw [List.foldr_cons, lookupKey_putKey]
    split
    · rfl
    · rename_i other
      rcases List.mem_cons.mp member with rfl | later
      · exact absurd rfl other
      · exact ih later

def WordPiece.name? : WordPiece → Option String
  | .reference name _ => some (String.ofList name)
  | _ => none

/-- The variables that a word refers to. -/
def referredNames (word : List Char) : List String := (wordPieces word).filterMap WordPiece.name?

theorem long_longSnapshot (listed : ∀ name ∈ referredNames word, name ∈ names) :
    Long (some (longSnapshot size names)) size (wordPieces word) := fun _ _ member =>
  lookupEnv_longSnapshot (listed _ (List.mem_filterMap.mpr ⟨_, member, rfl⟩))

theorem unescaped_eq (references : ∀ name braced, .reference name braced ∉ wordPieces word)
    (snapshot : Option EnvSnapshot) : expandVars snapshot word = unescaped word := by
  refine List.flatMap_congr fun piece member => ?_
  cases piece with
  | text chars => rfl
  | escape => rfl
  | reference name braced => exact absurd member (references name braced)

theorem absolute_of_prefix {word : List Char} (absolute : ['~', '/', '/'] <+: word) :
    ∃ path, word = '~' :: '/' :: path ∧ path.head? = some '/' := by
  obtain ⟨path, rfl⟩ := absolute
  exact ⟨'/' :: path, rfl, rfl⟩

theorem unescaped_behind {path : List Char}
    (references : ∀ name braced, .reference name braced ∉ wordPieces ('~' :: '/' :: path)) :
    ∀ name braced, .reference name braced ∉ wordPieces path := by
  intro name braced member
  refine references name braced ?_
  rw [wordPieces_tilde, wordPieces_slash]
  exact List.mem_cons_of_mem _ (List.mem_cons_of_mem _ member)

/-- The expansion of a word that takes no value in is one of its forms. -/
theorem Environmentless.expand_mem (fixed : Environmentless word) (snapshot : Option EnvSnapshot) :
    expandVars snapshot (expandTilde snapshot word) ∈ plainForms word := by
  by_cases tilde : Tilded word
  · have absolute := fixed.home tilde
    rw [plainForms, if_pos absolute]
    obtain ⟨path, rfl, head⟩ := absolute_of_prefix absolute
    cases set : lookupEnv snapshot "HOME" with
    | none =>
      rw [expandTilde_unset set, unescaped_eq fixed.references]
      exact List.mem_cons_self
    | some home =>
      rw [expandTilde_path set, pathJoin, if_pos head, unescaped_eq (unescaped_behind fixed.references)]
      exact List.mem_cons_of_mem _ (List.mem_singleton.mpr rfl)
  · rw [expandTilde_of_not_tilded tilde, unescaped_eq fixed.references]
    exact List.mem_cons_self

/-- Each form of such a word is its expansion under some snapshot. -/
theorem Environmentless.exists_expand (fixed : Environmentless word) {form : List Char}
    (member : form ∈ plainForms word) :
    ∃ snapshot, expandVars (some snapshot) (expandTilde (some snapshot) word) = form := by
  rw [plainForms] at member
  rcases List.mem_cons.mp member with rfl | other
  · refine ⟨⟨[], "/"⟩, ?_⟩
    rw [expandTilde_unset rfl, unescaped_eq fixed.references]
  · split at other
    · rename_i absolute
      obtain ⟨path, rfl, head⟩ := absolute_of_prefix absolute
      rw [List.mem_singleton.mp other]
      refine ⟨longSnapshot 1 ["HOME"], ?_⟩
      rw [expandTilde_path (lookupEnv_longSnapshot (List.mem_singleton.mpr rfl)), pathJoin, if_pos head,
        unescaped_eq (unescaped_behind fixed.references)]
      rfl
    · cases other

theorem long_of_reference {snapshot : Option EnvSnapshot} {name : List Char} {braced : Bool}
    (long : Long snapshot size (wordPieces word)) (member : .reference name braced ∈ wordPieces word) :
    size ≤ (expandVars snapshot word).length := by
  obtain ⟨front, back, pieces⟩ := List.append_of_mem member
  rw [expandVars, pieces, List.flatMap_append, List.flatMap_cons, WordPiece.expand, long name braced member]
  simp
  omega

/-- A value that becomes part of a word makes it long. -/
theorem long_of_not_environmentless {snapshot : Option EnvSnapshot}
    (home : lookupEnv snapshot "HOME" = some (longValue size)) (positive : 0 < size)
    (long : Long snapshot size (wordPieces word)) (takes : ¬ Environmentless word) :
    size ≤ (expandVars snapshot (expandTilde snapshot word)).length := by
  by_cases kept : Tilded word → ['~', '/', '/'] <+: word
  · obtain ⟨name, braced, member⟩ : ∃ name braced, .reference name braced ∈ wordPieces word := by
      by_contra none
      simp only [not_exists] at none
      exact takes ⟨none, kept⟩
    by_cases tilde : Tilded word
    · obtain ⟨path, rfl, head⟩ := absolute_of_prefix (kept tilde)
      rw [wordPieces_tilde, wordPieces_slash] at long member
      have inside : .reference name braced ∈ wordPieces path := by simpa using member
      rw [expandTilde_path home, pathJoin, if_pos head]
      refine long_of_reference (fun name braced member => long name braced ?_) inside
      exact List.mem_cons_of_mem _ (List.mem_cons_of_mem _ member)
    · rw [expandTilde_of_not_tilded tilde]
      exact long_of_reference long member
  · obtain ⟨tilde, relative⟩ := Classical.not_imp.mp kept
    rcases tilde with rfl | ⟨path, rfl⟩
    · have value := expandVars_replicate snapshot size []
      rw [List.append_nil] at value
      rw [expandTilde_alone home, String.toList_ofList, value]
      simp
    · have head : path.head? ≠ some '/' := by
        intro head
        obtain ⟨tail, rfl⟩ := List.head?_eq_some_iff.mp head
        exact relative ⟨tail, rfl⟩
      rw [List.cons_append, List.singleton_append, expandTilde_path home, String.toList_ofList,
        pathJoin_long positive head, expandVars_replicate]
      simp

end Snapshots

section Main

theorem expandWord_toList (snapshot : Option EnvSnapshot) (word : String) :
    (expandWord snapshot word).toList = expandVars snapshot (expandTilde snapshot word.toList) := by
  rw [expandWord, String.toList_ofList]

theorem expandWord_ne_empty {snapshot : Option EnvSnapshot} {word : String}
    (real : expandVars snapshot (expandTilde snapshot word.toList) ≠ []) :
    expandWord snapshot word ≠ "" := by
  intro empty
  rw [← expandWord_toList, empty] at real
  exact real rfl

theorem commandBase_ne {first second : String}
    (differ : pathBase first.toList ≠ pathBase second.toList) :
    commandBase first ≠ commandBase second := by
  rw [commandBase_eq, commandBase_eq]
  exact fun same => differ (String.ofList_injective same)

theorem KeepsBase.commandBase_eq (keeps : KeepsBase program.toList) (snapshot : Option EnvSnapshot) :
    commandBase (expandWord snapshot program) = commandBase program := by
  rw [CueShell.commandBase_eq, CueShell.commandBase_eq, expandWord_toList, keeps.pathBase_eq]

/-- A program that keeps its base is never expanded to nothing. -/
theorem KeepsBase.expandWord_ne (keeps : KeepsBase program.toList) (real : program ≠ "")
    (snapshot : Option EnvSnapshot) : expandWord snapshot program ≠ "" := by
  refine expandWord_ne_empty fun empty => real ?_
  have base := keeps.pathBase_eq snapshot
  rw [empty] at base
  have none : program.toList = [] := pathBase_eq_nil (base.symm.trans (by decide))
  rw [← String.ofList_toList (s := program), none]

/-- A size that no word of a line reaches. -/
def beyond (words : List String) : ℕ := (words.map fun word => word.toList.length).sum + 2

theorem length_lt_beyond {words : List String} {word : String} (member : word ∈ words) :
    word.toList.length < beyond words := by
  have bound := List.single_le_sum (l := words.map fun word => word.toList.length) (by simp)
    _ (List.mem_map_of_mem member)
  rw [beyond]
  omega

/-- The snapshot that gives long values to all variables of a line and to the home directory. -/
def longFor (words : List String) : EnvSnapshot :=
  longSnapshot (beyond words) ("HOME" :: words.flatMap fun word => referredNames word.toList)

theorem longFor_home (words : List String) :
    lookupEnv (some (longFor words)) "HOME" = some (longValue (beyond words)) :=
  lookupEnv_longSnapshot List.mem_cons_self

theorem longFor_long {words : List String} {word : String} (member : word ∈ words) :
    Long (some (longFor words)) (beyond words) (wordPieces word.toList) :=
  long_longSnapshot fun _ referred =>
    List.mem_cons_of_mem _ (List.mem_flatMap.mpr ⟨word, member, referred⟩)

theorem keepsBase_of_survives (survives : SurvivesExpansion (program :: args)) : KeepsBase program.toList := by
  by_contra changes
  obtain ⟨differ, real⟩ := base_ne_of_long (longFor_home (program :: args))
    (longFor_long List.mem_cons_self) (by rw [beyond]; omega) (length_lt_beyond List.mem_cons_self) changes
  rw [← expandWord_toList] at differ
  have keeps := survivesExpansion_cons.mp survives _ (expandWord_ne_empty real)
  exact commandBase_ne differ keeps.1.symm

theorem keepsArgs_of_survives (survives : SurvivesExpansion (program :: args)) (real : program ≠ "") :
    KeepsArgs args := by
  have base := keepsBase_of_survives survives
  have covered : ∀ snapshot, ∀ arg ∈ args, ∃ given ∈ args,
      blockedArgMatches given (expandWord (some snapshot) arg) := fun snapshot =>
    (survivesExpansion_cons.mp survives snapshot (base.expandWord_ne real _)).2
  intro arg member
  have fixed : Environmentless arg.toList := by
    by_contra takes
    have long := long_of_not_environmentless (longFor_home args) (by rw [beyond]; omega)
      (longFor_long member) takes
    obtain ⟨given, there, found⟩ := covered (longFor args) arg member
    have bound := length_le_of_matches found
    rw [expandWord_toList] at bound
    have short := length_lt_beyond there
    omega
  refine ⟨fixed, fun form listed => ?_⟩
  obtain ⟨snapshot, rfl⟩ := fixed.exists_expand listed
  exact covered snapshot arg member

/-- Which lines the check at submission speaks for. -/
theorem survivesExpansion_iff (line : List String) : SurvivesExpansion line ↔ KeepsVerdict line := by
  cases line with
  | nil =>
    refine ⟨fun _ => trivial, fun _ config snapshot vector _ spawned => ?_⟩
    cases spawned
  | cons program args =>
    constructor
    · intro survives
      by_cases real : program = ""
      · exact .inl real
      · exact .inr ⟨keepsBase_of_survives survives, keepsArgs_of_survives survives real⟩
    · rintro (rfl | ⟨base, covered⟩)
      · refine survivesExpansion_cons.mpr fun snapshot real => absurd ?_ real
        have empty : expandTilde (some snapshot) [] = [] :=
          expandTilde_of_not_tilded (by simp [Tilded])
        rw [expandWord, String.toList_empty, empty]
        simp [expandVars, wordPieces]
      · refine survivesExpansion_cons.mpr fun snapshot _ => ⟨base.commandBase_eq _, fun arg member => ?_⟩
        obtain ⟨fixed, forms⟩ := covered arg member
        exact forms _ (fixed.expand_mem (some snapshot))

/-- A forbidden command that is spelled with a variable. -/
theorem variable_hides_command : ¬ SurvivesExpansion ["$X", "-rf"] := by
  intro survives
  have program : expandWord (some ⟨[("X", "rm")], "/"⟩) "$X" = "rm" := by
    simp [expandWord, expandTilde, expandVars, wordPieces, nextPiece, isVarStart, WordPiece.expand, lookupEnv,
      lookupKey]
  have option : expandWord (some ⟨[("X", "rm")], "/"⟩) "-rf" = "-rf" := by
    simp [expandWord, expandTilde, expandVars, wordPieces, nextPiece, WordPiece.expand, lookupEnv, lookupKey]
  have pass := survives ⟨[("rm", .wholeCommand "")], []⟩ ⟨[("X", "rm")], "/"⟩ ["rm", "-rf"]
    (by decide) (expandSegment_eq_some.mpr ⟨by rw [program]; decide, by simp [program, option]⟩)
  exact absurd pass (by decide)

end Main

end CueShell
