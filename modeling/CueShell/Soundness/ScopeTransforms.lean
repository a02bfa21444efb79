import Mathlib.Data.String.Basic
import CueShell.Model.JobStreaming
import CueShell.Soundness.ScopeCollection
import CueShell.ToMathlib.SortedEntries

/-! # The two implementations of `cd` and `env set`

The process manager changes the snapshot of a job in place, the scheduler derives a scope from a delta.
Both succeed on the same words, with the same snapshot. A failure leaves the scope as it is, but the
assignments in front of an invalid one stay in the snapshot of the job.
-/

namespace CueShell

open SortedEntries

section Variables

theorem Variables.insert_eq_put (env : Variables) (name value : String) :
    env.insert name value = put name value env := by
  induction env with
  | nil => rfl
  | cons entry rest ih =>
    rw [Variables.insert, put, ih]

theorem Variables.insertAll_eq_putAll (set env : Variables) :
    set.foldl (fun env (name, value) => env.insert name value) env = putAll set env := by
  rw [putAll]
  congr 1
  funext env entry
  exact Variables.insert_eq_put env entry.1 entry.2

theorem lookupKey_eq_get (env : Variables) (name : String) : lookupKey env name = SortedEntries.get env name := by
  rw [lookupKey, SortedEntries.get]
  congr 2

end Variables

section Assignments

variable {snapshot : EnvSnapshot} {assignments : List String}

/-- A name, an equals sign and a value. -/
def isAssignment (assignment : String) : Bool :=
  (splitAssignment assignment).any fun (key, _) => key ≠ ""

/-- The assignments in front of the first that is not one. -/
def leadingAssignments (assignments : List String) : Variables :=
  (assignments.takeWhile isAssignment).filterMap splitAssignment

theorem isAssignment_iff (assignment : String) : isAssignment assignment = true ↔
    ∃ key value, splitAssignment assignment = some (key, value) ∧ key ≠ "" := by
  cases split : splitAssignment assignment with
  | none => simp [isAssignment, split]
  | some pair =>
    rw [isAssignment, split]
    constructor
    · intro named
      exact ⟨pair.1, pair.2, rfl, by simpa using named⟩
    · rintro ⟨key, value, same, named⟩
      cases same
      simpa using named

theorem leadingAssignments_cons {assignment key value : String} {rest : List String}
    (split : splitAssignment assignment = some (key, value)) (named : key ≠ "") :
    leadingAssignments (assignment :: rest) = (key, value) :: leadingAssignments rest := by
  have valid : isAssignment assignment = true := (isAssignment_iff _).mpr ⟨key, value, split, named⟩
  rw [leadingAssignments, List.takeWhile_cons_of_pos valid, List.filterMap_cons_some split]
  rfl

theorem leadingAssignments_stop {assignment : String} {rest : List String}
    (invalid : isAssignment assignment = false) : leadingAssignments (assignment :: rest) = [] := by
  rw [leadingAssignments, List.takeWhile_cons_of_neg (by simp [invalid])]
  rfl

/-- The loop in place: the leading assignments are made, and the code tells whether they were all. -/
theorem setJobLocalVariables_spec (snapshot : EnvSnapshot) (assignments : List String) :
    ((setJobLocalVariables snapshot assignments).code = 0 ↔
      ∀ assignment ∈ assignments, isAssignment assignment = true) ∧
    (setJobLocalVariables snapshot assignments).snapshot =
      ⟨putAll (leadingAssignments assignments) snapshot.env, snapshot.cwd⟩ := by
  induction assignments generalizing snapshot with
  | nil => exact ⟨by simp [setJobLocalVariables], rfl⟩
  | cons assignment rest ih =>
    rw [setJobLocalVariables, List.forall_mem_cons]
    cases split : splitAssignment assignment with
    | none =>
      have invalid : isAssignment assignment = false := by simp [isAssignment, split]
      rw [leadingAssignments_stop invalid]
      exact ⟨by simp [invalid], rfl⟩
    | some pair =>
      obtain ⟨key, value⟩ := pair
      dsimp only
      by_cases named : key = ""
      · have invalid : isAssignment assignment = false := by simp [isAssignment, split, named]
        rw [if_pos named, leadingAssignments_stop invalid]
        exact ⟨by simp [invalid], rfl⟩
      · have valid : isAssignment assignment = true := (isAssignment_iff _).mpr ⟨key, value, split, named⟩
        obtain ⟨code, left⟩ := ih { snapshot with env := snapshot.env.insert key value }
        rw [if_neg named, leadingAssignments_cons split named, left, code, Variables.insert_eq_put]
        exact ⟨by simp [valid], rfl⟩

/-- The loop that collects: all of the assignments, or none. -/
theorem collectVariables_spec (set : Variables) (assignments : List String) :
    ((∀ assignment ∈ assignments, isAssignment assignment = true) ∧
      collectVariables set assignments = .ok (putAll (leadingAssignments assignments) set)) ∨
    ((¬ ∀ assignment ∈ assignments, isAssignment assignment = true) ∧
      ∃ message, collectVariables set assignments = .error message) := by
  induction assignments generalizing set with
  | nil => exact .inl ⟨by simp, rfl⟩
  | cons assignment rest ih =>
    rw [collectVariables, List.forall_mem_cons]
    cases split : splitAssignment assignment with
    | none =>
      have invalid : isAssignment assignment = false := by simp [isAssignment, split]
      exact .inr ⟨by simp [invalid], _, rfl⟩
    | some pair =>
      obtain ⟨key, value⟩ := pair
      dsimp only
      by_cases named : key = ""
      · have invalid : isAssignment assignment = false := by simp [isAssignment, split, named]
        rw [if_pos named]
        exact .inr ⟨by simp [invalid], _, rfl⟩
      · have valid : isAssignment assignment = true := (isAssignment_iff _).mpr ⟨key, value, split, named⟩
        rw [if_neg named, leadingAssignments_cons split named, Variables.insert_eq_put, and_iff_right valid]
        exact ih (put key value set)

end Assignments

section Words

variable {transform : ScopeTransform}

/-- The words of a scope transform. -/
def ScopeTransform.words : ScopeTransform → List String
  | .cd path => ["cd", path]
  | .envSet assignments => "env" :: "set" :: assignments

theorem scopeTransformFromCommand_words {words : List String}
    (found : scopeTransformFromCommand words = .ok (some transform)) :
    words = transform.words ∧ transform ≠ .envSet [] := by
  unfold scopeTransformFromCommand at found
  split at found
  · cases found
  · split at found
    · cases found
      exact ⟨rfl, by simp⟩
    · cases found
  · split_ifs at found with none
    cases found
    exact ⟨rfl, by simpa using none⟩
  · cases found

end Words

section Scopes

variable {store : ScopeStore} {base : ScopeHash} {parent : Scope} {snapshot : EnvSnapshot}

theorem getScopeSnapshotByHash_of_lookup (found : store.lookup base = .ok (some parent))
    (content : parent.snapshot = some snapshot) :
    store.getScopeSnapshotByHash base = (.ok snapshot, (store.loadScope base).2) := by
  have answer := ScopeStore.loadScope_fst store base
  rw [ScopeStore.getScopeSnapshotByHash]
  cases loaded : store.loadScope base with
  | mk result filled =>
    rw [loaded, found] at answer
    cases answer
    dsimp only
    rw [content]

theorem derive_of_lookup (computeHash : EnvSnapshot → ScopeHash)
    (found : store.lookup base = .ok (some parent)) (content : parent.snapshot = some snapshot)
    (delta : EnvDelta) :
    ∃ after, store.derive computeHash base delta =
        (.ok (computeHash (snapshot.applyDelta delta)), after) ∧
      after.lookup (computeHash (snapshot.applyDelta delta)) =
        .ok (some (Scope.fork computeHash parent.hash snapshot delta)) := by
  have answer := ScopeStore.loadScope_fst store base
  rw [ScopeStore.derive, ScopeStore.deriveScope]
  cases loaded : store.loadScope base with
  | mk result filled =>
    rw [loaded, found] at answer
    cases answer
    dsimp only
    rw [content]
    refine ⟨_, rfl, ?_⟩
    rw [ScopeStore.lookup_insert]
    exact if_pos rfl

/-- A recognised transform is applied exactly if it has a delta; the derived scope then is the snapshot
with the delta. -/
theorem applyScopeTransform_spec (fs : FileSystem) (computeHash : EnvSnapshot → ScopeHash)
    {command : List String} {transform : ScopeTransform}
    (found : store.lookup base = .ok (some parent)) (content : parent.snapshot = some snapshot)
    (recognised : scopeTransformFromCommand (expandCommandLine (some snapshot) command) =
      .ok (some transform)) :
    (∃ delta after, transform.delta fs snapshot = .ok delta ∧
      applyScopeTransform fs computeHash store base command =
        (.ok (computeHash (snapshot.applyDelta delta)), after) ∧
      after.lookup (computeHash (snapshot.applyDelta delta)) =
        .ok (some (Scope.fork computeHash parent.hash snapshot delta))) ∨
    (∃ message, transform.delta fs snapshot = .error message ∧
      (applyScopeTransform fs computeHash store base command).1 = .error (.message message)) := by
  rw [applyScopeTransform, getScopeSnapshotByHash_of_lookup found content]
  dsimp only
  rw [recognised]
  dsimp only
  cases changed : transform.delta fs snapshot with
  | error message => exact .inr ⟨message, rfl, rfl⟩
  | ok delta =>
    have found' : (store.loadScope base).2.lookup base = .ok (some parent) := by
      rw [(ScopeStore.loadScope_filled store base).lookup, found]
    obtain ⟨after, derived, child⟩ := derive_of_lookup computeHash found' content delta
    dsimp only
    rw [derived]
    exact .inl ⟨delta, after, rfl, rfl, child⟩

end Scopes

section Agreement

variable (fs : FileSystem) (computeHash : EnvSnapshot → ScopeHash) (store : ScopeStore) (base : ScopeHash)
  (command : List String) (snapshot : EnvSnapshot)

/-- The builtin of a job ends with code zero exactly if the scope transform is applied, then with the
snapshot of the derived scope, and otherwise with the snapshot it was started with. -/
def BuiltinsAgree : Prop :=
  ∃ done, runJobLocalBuiltin fs ⟨[⟨command, none⟩]⟩ snapshot = some done ∧
    (done.code = 0 ↔ ∃ hash, (applyScopeTransform fs computeHash store base command).1 = .ok hash) ∧
    (∀ hash, (applyScopeTransform fs computeHash store base command).1 = .ok hash →
      ∃ child delta, (applyScopeTransform fs computeHash store base command).2.lookup hash =
          .ok (some child) ∧
        child.delta = some delta ∧ child.snapshot = some done.snapshot ∧
        done.snapshot = snapshot.applyDelta delta) ∧
    (done.code ≠ 0 → done.snapshot = snapshot)

/-- The assignments in front of the first invalid one, if there is one, change no variable: the last value
of each is the one it has. -/
def ScopeTransform.Harmless (env : Variables) : ScopeTransform → Prop
  | .cd _ => True
  | .envSet assignments =>
      (∀ assignment ∈ assignments, isAssignment assignment = true) ∨
        ∀ name value, lookupKey (leadingAssignments assignments).reverse name = some value →
          lookupKey env name = some value

/-- Both look for the directory in the same way, and word their errors differently. -/
theorem cdTarget_cases (fs : FileSystem) (snapshot : EnvSnapshot) (path : String) :
    (∃ cwd, resolveJobLocalCdTarget fs snapshot path = .ok cwd ∧
      resolveCdTarget fs snapshot path = .ok cwd) ∨
    (∃ error error', resolveJobLocalCdTarget fs snapshot path = .error error ∧
      resolveCdTarget fs snapshot path = .error error') := by
  unfold resolveCdTarget resolveJobLocalCdTarget cdTarget
  dsimp only
  generalize fs.canonicalize _ = answer
  cases answer with
  | error error => exact .inr ⟨_, _, rfl, rfl⟩
  | ok resolved =>
    dsimp only
    split_ifs
    · exact .inl ⟨resolved, rfl, rfl⟩
    · exact .inr ⟨_, _, rfl, rfl⟩

/-- How the builtin ends: as the delta of the transform says, and on a failure with the leading
assignments made. -/
theorem runJobLocalBuiltin_spec {command : List String} {snapshot : EnvSnapshot}
    {transform : ScopeTransform} (sorted : Sorted snapshot.env)
    (recognised : scopeTransformFromCommand (expandCommandLine (some snapshot) command) =
      .ok (some transform)) :
    ∃ done, runJobLocalBuiltin fs ⟨[⟨command, none⟩]⟩ snapshot = some done ∧
      ((done.code = 0 ∧ transform.Harmless snapshot.env ∧ ∃ delta, transform.delta fs snapshot = .ok delta ∧
          done.snapshot = snapshot.applyDelta delta) ∨
        (done.code ≠ 0 ∧ (∃ message, transform.delta fs snapshot = .error message) ∧
          (done.snapshot = snapshot ↔ transform.Harmless snapshot.env))) := by
  obtain ⟨isWords, nonempty⟩ := scopeTransformFromCommand_words recognised
  rw [runJobLocalBuiltin]
  dsimp only
  rw [if_neg (by simp), isWords]
  cases transform with
  | cd path =>
    rcases cdTarget_cases fs snapshot path with ⟨cwd, job, scope⟩ | ⟨error, error', job, scope⟩
    · refine ⟨⟨0, { snapshot with cwd }, []⟩, ?_, .inl ⟨rfl, trivial, { cwd := some cwd }, ?_, rfl⟩⟩
      · simp [ScopeTransform.words, detectJobLocalBuiltin, job]
      · rw [ScopeTransform.delta, scope]
        rfl
    · refine ⟨⟨1, snapshot, [error ++ "\n"]⟩, ?_, .inr ⟨by simp, ⟨error', ?_⟩, fun _ => trivial, fun _ => rfl⟩⟩
      · simp [ScopeTransform.words, detectJobLocalBuiltin, job]
      · rw [ScopeTransform.delta, scope]
        rfl
  | envSet assignments =>
    have some : assignments ≠ [] := by
      rintro rfl
      exact nonempty rfl
    obtain ⟨code, left⟩ := setJobLocalVariables_spec snapshot assignments
    refine ⟨setJobLocalVariables snapshot assignments, by
      simp [ScopeTransform.words, detectJobLocalBuiltin, some], ?_⟩
    rcases collectVariables_spec [] assignments with ⟨valid, collected⟩ | ⟨invalid, message, failed⟩
    · refine .inl ⟨code.mpr valid, .inl valid, { set := putAll (leadingAssignments assignments) [] }, ?_, ?_⟩
      · rw [ScopeTransform.delta, collected]
        rfl
      · rw [left, EnvSnapshot.applyDelta]
        dsimp only [List.foldl_nil, Option.getD_none]
        rw [Variables.insertAll_eq_putAll, sorted.putAll_collected]
    · refine .inr ⟨fun zero => invalid (code.mp zero), ⟨message, ?_⟩, ?_⟩
      · rw [ScopeTransform.delta, failed]
        rfl
      · have kept : (⟨putAll (leadingAssignments assignments) snapshot.env, snapshot.cwd⟩ : EnvSnapshot) =
            snapshot ↔ putAll (leadingAssignments assignments) snapshot.env = snapshot.env := by
          constructor
          · exact fun same => congrArg EnvSnapshot.env same
          · intro same
            rw [same]
        rw [left, kept, sorted.putAll_eq_self, ScopeTransform.Harmless, or_iff_right invalid]
        simp only [lookupKey_eq_get]

/-- The two implementations agree on words that both recognise exactly if no assignment is made in front
of an invalid one that changes a variable. -/
theorem builtinsAgree_iff {parent : Scope} {transform : ScopeTransform}
    (sorted : Sorted snapshot.env) (found : store.lookup base = .ok (some parent))
    (content : parent.snapshot = some snapshot)
    (recognised : scopeTransformFromCommand (expandCommandLine (some snapshot) command) =
      .ok (some transform)) :
    BuiltinsAgree fs computeHash store base command snapshot ↔ transform.Harmless snapshot.env := by
  obtain ⟨done, ran, outcome⟩ := runJobLocalBuiltin_spec fs sorted recognised
  rw [BuiltinsAgree, ran]
  rcases applyScopeTransform_spec fs computeHash found content recognised with
    ⟨delta, after, changed, applied, child⟩ | ⟨message, failed, applied⟩
  · obtain ⟨zero, harmless, delta', changed', result⟩ | ⟨-, ⟨message, failed⟩, -⟩ := outcome
    · cases changed.symm.trans changed'
      refine iff_of_true ⟨done, rfl, ?_, ?_, fun nonzero => absurd zero nonzero⟩ harmless
      · exact iff_of_true zero ⟨_, by rw [applied]⟩
      · intro hash isHash
        rw [applied] at isHash ⊢
        cases isHash
        exact ⟨_, delta, child, rfl, by rw [result]; rfl, result⟩
    · rw [changed] at failed
      cases failed
  · obtain ⟨-, -, delta, changed, -⟩ | ⟨nonzero, -, kept⟩ := outcome
    · rw [changed] at failed
      cases failed
    · have refused (hash : ScopeHash) :
          (applyScopeTransform fs computeHash store base command).1 ≠ .ok hash := by
        rw [applied]
        exact nofun
      rw [← kept]
      constructor
      · rintro ⟨done', same, -, -, unchanged⟩
        cases same
        exact unchanged nonzero
      · intro unchanged
        exact ⟨done, rfl, iff_of_false nonzero fun ⟨hash, ok⟩ => refused hash ok,
          fun hash ok => absurd ok (refused hash), fun _ => unchanged⟩

/-- The store of a daemon that is started in `/`, without variables. -/
def rootStore : ScopeStore := .start ScopeStore.cwdHash .empty ⟨[], "/"⟩

/-- A file system in which every path is a directory. -/
def everyDirectory : FileSystem := ⟨.ok, fun _ => true⟩

/-- Two assignments to one variable. -/
theorem builtinsAgree_assignments :
    scopeTransformFromCommand (expandCommandLine (some ⟨[], "/"⟩) ["env", "set", "A=1", "A=2"]) =
      .ok (some (.envSet ["A=1", "A=2"])) ∧
    BuiltinsAgree everyDirectory ScopeStore.cwdHash rootStore (ScopeStore.cwdHash ⟨[], "/"⟩)
      ["env", "set", "A=1", "A=2"] ⟨[], "/"⟩ := by
  have words : expandCommandLine (some ⟨[], "/"⟩) ["env", "set", "A=1", "A=2"] =
      ["env", "set", "A=1", "A=2"] := by
    simp [expandCommandLine, expandWord, expandTilde, expandVars, lookupEnv, lookupKey, wordPieces,
      nextPiece, WordPiece.expand]
  have recognised : scopeTransformFromCommand
      (expandCommandLine (some ⟨[], "/"⟩) ["env", "set", "A=1", "A=2"]) =
        .ok (some (.envSet ["A=1", "A=2"])) := by
    rw [words]
    rfl
  have sorted : Sorted (⟨[], "/"⟩ : EnvSnapshot).env := List.Pairwise.nil
  refine ⟨recognised, (builtinsAgree_iff everyDirectory ScopeStore.cwdHash rootStore _ _ _ sorted rfl rfl
    recognised).mpr (.inl ?_)⟩
  decide

/-- The second word is no assignment: the first one stays in the snapshot of the job. -/
theorem builtinsDisagree_partial :
    detectJobLocalBuiltin (expandCommandLine (some ⟨[], "/"⟩) ["env", "set", "A=1", "B"]) =
      some (.envSet ["A=1", "B"]) ∧
    scopeTransformFromCommand (expandCommandLine (some ⟨[], "/"⟩) ["env", "set", "A=1", "B"]) =
      .ok (some (.envSet ["A=1", "B"])) ∧
    (runJobLocalBuiltin everyDirectory ⟨[⟨["env", "set", "A=1", "B"], none⟩]⟩ ⟨[], "/"⟩).map
      (fun done => (done.code, done.snapshot)) = some (1, ⟨[("A", "1")], "/"⟩) ∧
    ¬ BuiltinsAgree everyDirectory ScopeStore.cwdHash rootStore (ScopeStore.cwdHash ⟨[], "/"⟩)
      ["env", "set", "A=1", "B"] ⟨[], "/"⟩ := by
  have words : expandCommandLine (some ⟨[], "/"⟩) ["env", "set", "A=1", "B"] =
      ["env", "set", "A=1", "B"] := by
    simp [expandCommandLine, expandWord, expandTilde, expandVars, lookupEnv, lookupKey, wordPieces,
      nextPiece, WordPiece.expand]
  have ran : runJobLocalBuiltin everyDirectory ⟨[⟨["env", "set", "A=1", "B"], none⟩]⟩ ⟨[], "/"⟩ =
      some ⟨1, ⟨[("A", "1")], "/"⟩, ["env set: expected KEY=VALUE, got `B`\n"]⟩ := by
    rw [runJobLocalBuiltin]
    dsimp only
    rw [words]
    decide
  rw [words, ran]
  refine ⟨rfl, rfl, rfl, ?_⟩
  rintro ⟨done, same, -, -, unchanged⟩
  rw [ran] at same
  cases same
  exact absurd (unchanged (by decide)) (by decide)

end Agreement

end CueShell
