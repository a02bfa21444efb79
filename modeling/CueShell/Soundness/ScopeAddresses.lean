import CueShell.Proofs.WordPieces
import CueShell.Soundness.ScopeTransforms
import CueShell.ToMathlib.Words

/-! # Addresses of scopes

A scope is addressed by the digest of its variables and its working directory, written one behind the
other. What is written can be read back in one way only, if no variable and no directory holds the signs
that separate them.
-/

namespace CueShell

section Text

/-- A snapshot without the separators: no NUL anywhere, and no equals sign in a name. -/
structure EnvSnapshot.Separable (snapshot : EnvSnapshot) : Prop where
  names : ∀ entry ∈ snapshot.env, '=' ∉ entry.1.toList ∧ '\x00' ∉ entry.1.toList
  values : ∀ entry ∈ snapshot.env, '\x00' ∉ entry.2.toList
  cwd : '\x00' ∉ snapshot.cwd.toList

theorem canonicalText_cons (entry : String × String) (env : Variables) (cwd : String) :
    (⟨entry :: env, cwd⟩ : EnvSnapshot).canonicalText =
      (entry.1.toList ++ '=' :: entry.2.toList) ++ '\x00' :: (⟨env, cwd⟩ : EnvSnapshot).canonicalText := by
  simp [EnvSnapshot.canonicalText]

theorem EnvSnapshot.Separable.tail {entry : String × String} {env : Variables} {cwd : String}
    (separable : (⟨entry :: env, cwd⟩ : EnvSnapshot).Separable) : (⟨env, cwd⟩ : EnvSnapshot).Separable where
  names other member := separable.names other (List.mem_cons_of_mem _ member)
  values other member := separable.values other (List.mem_cons_of_mem _ member)
  cwd := separable.cwd

theorem EnvSnapshot.Separable.entry {entry : String × String} {env : Variables} {cwd : String}
    (separable : (⟨entry :: env, cwd⟩ : EnvSnapshot).Separable) :
    '=' ∉ entry.1.toList ∧ '\x00' ∉ entry.1.toList ++ '=' :: entry.2.toList := by
  obtain ⟨equals, name⟩ := separable.names entry List.mem_cons_self
  have value := separable.values entry List.mem_cons_self
  exact ⟨equals, by simp [name, value]⟩

/-- The text of a snapshot with a variable holds a NUL, the text of one without is the directory. -/
theorem canonicalText_ne {entry : String × String} {env : Variables} {cwd other : String}
    (separable : (⟨[], other⟩ : EnvSnapshot).Separable) :
    (⟨[], other⟩ : EnvSnapshot).canonicalText ≠ (⟨entry :: env, cwd⟩ : EnvSnapshot).canonicalText := by
  intro same
  rw [canonicalText_cons] at same
  refine separable.cwd ?_
  have directory : (⟨[], other⟩ : EnvSnapshot).canonicalText = other.toList := rfl
  rw [← directory, same]
  simp

/-- The text determines the snapshot. -/
theorem canonicalText_injective {first second : EnvSnapshot} (separable : first.Separable)
    (separable' : second.Separable) (same : first.canonicalText = second.canonicalText) :
    first = second := by
  obtain ⟨env, cwd⟩ := first
  obtain ⟨env', cwd'⟩ := second
  induction env generalizing env' with
  | nil =>
    cases env' with
    | nil =>
      have directories : cwd = cwd' := String.toList_inj.mp same
      rw [directories]
    | cons entry env' => exact absurd same (canonicalText_ne separable)
  | cons entry env ih =>
    cases env' with
    | nil => exact absurd same.symm (canonicalText_ne separable')
    | cons entry' env' =>
      rw [canonicalText_cons, canonicalText_cons] at same
      obtain ⟨entries, rests⟩ := cut_at_first separable.entry.2 separable'.entry.2 same
      obtain ⟨names, values⟩ := cut_at_first separable.entry.1 separable'.entry.1 entries
      have tails := ih separable.tail env' separable'.tail rests
      simp only [EnvSnapshot.mk.injEq] at tails ⊢
      refine ⟨?_, tails.2⟩
      rw [tails.1, Prod.ext (String.toList_inj.mp names) (String.toList_inj.mp values)]

theorem canonicalBytes_injective {first second : EnvSnapshot} (separable : first.Separable)
    (separable' : second.Separable) (same : first.canonicalBytes = second.canonicalBytes) :
    first = second :=
  canonicalText_injective separable separable'
    (String.ofList_injective (String.toByteArray_inj.mp same))

end Text

section Creation

variable (fs : FileSystem)

/-- What creates a snapshot: the start of a session, or a change of one that has been created. -/
inductive SnapshotStep where
  | session (snapshot : EnvSnapshot)
  | change (base : EnvSnapshot) (transform : ScopeTransform)

/-- The snapshots after a step; a change that fails, or that is asked of an unknown snapshot, creates none. -/
def SnapshotStep.create (created : List EnvSnapshot) : SnapshotStep → List EnvSnapshot
  | .session snapshot => created ++ [snapshot]
  | .change base transform =>
      match transform.delta fs base with
      | .ok delta => if base ∈ created then created ++ [base.applyDelta delta] else created
      | .error _ => created

def createAll (steps : List SnapshotStep) : List EnvSnapshot :=
  steps.foldl (SnapshotStep.create fs) []

/-- A step that brings in no separator. -/
def SnapshotStep.Separable : SnapshotStep → Prop
  | .session snapshot => snapshot.Separable
  | .change _ (.cd _) => True
  | .change _ (.envSet assignments) => ∀ assignment ∈ assignments, '\x00' ∉ assignment.toList

variable {fs}

/-- The two sides of an assignment without a NUL. -/
theorem splitAssignment_separable {assignment : String} {entry : String × String}
    (split : splitAssignment assignment = some entry) (clean : '\x00' ∉ assignment.toList) :
    ('=' ∉ entry.1.toList ∧ '\x00' ∉ entry.1.toList) ∧ '\x00' ∉ entry.2.toList := by
  obtain ⟨⟨name, value⟩, found, rfl⟩ := Option.map_eq_some_iff.mp split
  have fresh := Text.splitOnce_fresh found
  rw [Text.splitOnce_eq_some found, List.mem_append, List.mem_cons, not_or, not_or] at clean
  simpa using ⟨⟨fresh, clean.1⟩, clean.2.2⟩

theorem leadingAssignments_separable {assignments : List String}
    (clean : ∀ assignment ∈ assignments, '\x00' ∉ assignment.toList) :
    ∀ entry ∈ leadingAssignments assignments,
      ('=' ∉ entry.1.toList ∧ '\x00' ∉ entry.1.toList) ∧ '\x00' ∉ entry.2.toList := by
  intro entry member
  obtain ⟨assignment, taken, split⟩ := List.mem_filterMap.mp member
  exact splitAssignment_separable split (clean assignment (List.takeWhile_subset _ taken))

/-- A change without a NUL keeps the separators out. -/
theorem applyDelta_separable {base : EnvSnapshot} {transform : ScopeTransform} {delta : EnvDelta}
    (paths : ∀ path resolved, fs.canonicalize path = .ok resolved → '\x00' ∉ resolved.toList)
    (changed : transform.delta fs base = .ok delta) (separable : base.Separable)
    (clean : (SnapshotStep.change base transform).Separable) : (base.applyDelta delta).Separable := by
  cases transform with
  | cd path =>
    have resolves : ∃ cwd, delta = { cwd := some cwd } ∧ '\x00' ∉ cwd.toList := by
      rw [ScopeTransform.delta, resolveCdTarget, cdTarget] at changed
      split at changed
      · cases changed
      · next resolved found =>
        split_ifs at changed
        · cases changed
          exact ⟨resolved, rfl, paths _ resolved found⟩
        · cases changed
    obtain ⟨cwd, rfl, fresh⟩ := resolves
    exact ⟨separable.names, separable.values, fresh⟩
  | envSet assignments =>
    rcases collectVariables_spec [] assignments with ⟨-, collected⟩ | ⟨-, message, failed⟩
    · rw [ScopeTransform.delta, collected] at changed
      cases changed
      have entries : ∀ entry ∈ (base.applyDelta
          { set := SortedEntries.putAll (leadingAssignments assignments) [] }).env,
          ('=' ∉ entry.1.toList ∧ '\x00' ∉ entry.1.toList) ∧ '\x00' ∉ entry.2.toList := by
        intro entry member
        rw [EnvSnapshot.applyDelta] at member
        dsimp only [List.foldl_nil] at member
        rw [Variables.insertAll_eq_putAll] at member
        rcases SortedEntries.mem_putAll member with new | old
        · rcases SortedEntries.mem_putAll new with assigned | none
          · exact leadingAssignments_separable clean entry assigned
          · cases none
        · exact ⟨separable.names entry old, separable.values entry old⟩
      exact ⟨fun entry member => (entries entry member).1, fun entry member => (entries entry member).2,
        separable.cwd⟩
    · rw [ScopeTransform.delta, failed] at changed
      cases changed

/-- One step. -/
theorem SnapshotStep.create_separable {created : List EnvSnapshot} {step : SnapshotStep}
    (paths : ∀ path resolved, fs.canonicalize path = .ok resolved → '\x00' ∉ resolved.toList)
    (separable : ∀ snapshot ∈ created, snapshot.Separable) (clean : step.Separable) :
    ∀ snapshot ∈ step.create fs created, snapshot.Separable := by
  have added (snapshot : EnvSnapshot) (fresh : snapshot.Separable) :
      ∀ other ∈ created ++ [snapshot], other.Separable :=
    List.forall_mem_append.mpr ⟨separable, List.forall_mem_singleton.mpr fresh⟩
  cases step with
  | session snapshot => exact added snapshot clean
  | change base transform =>
    rw [SnapshotStep.create]
    cases changed : transform.delta fs base with
    | error message => exact separable
    | ok delta =>
      dsimp only
      split_ifs with known
      · exact added _ (applyDelta_separable paths changed (separable base known) clean)
      · exact separable

/-- Every snapshot of a run without separators. -/
theorem createAll_separable {steps : List SnapshotStep}
    (paths : ∀ path resolved, fs.canonicalize path = .ok resolved → '\x00' ∉ resolved.toList)
    (clean : ∀ step ∈ steps, step.Separable) : ∀ snapshot ∈ createAll fs steps, snapshot.Separable := by
  have runs (created : List EnvSnapshot) (separable : ∀ snapshot ∈ created, snapshot.Separable) :
      ∀ snapshot ∈ steps.foldl (SnapshotStep.create fs) created, snapshot.Separable := by
    induction steps generalizing created with
    | nil => exact separable
    | cons step steps ih =>
      obtain ⟨first, rest⟩ := List.forall_mem_cons.mp clean
      exact ih rest _ (SnapshotStep.create_separable paths separable first)
  exact runs [] fun snapshot member => absurd member List.not_mem_nil

/-- Snapshots that are created without separators have the same address only if they are the same. -/
theorem computeHash_injective (blake3 : ByteArray → ScopeHash) (steps : List SnapshotStep)
    (paths : ∀ path resolved, fs.canonicalize path = .ok resolved → '\x00' ∉ resolved.toList)
    (apart : ∀ first ∈ createAll fs steps, ∀ second ∈ createAll fs steps,
      blake3 first.canonicalBytes = blake3 second.canonicalBytes →
        first.canonicalBytes = second.canonicalBytes)
    (clean : ∀ step ∈ steps, step.Separable) :
    ∀ first ∈ createAll fs steps, ∀ second ∈ createAll fs steps,
      first.computeHash blake3 = second.computeHash blake3 → first = second := by
  intro first created second created' same
  have separable := createAll_separable paths clean
  exact canonicalBytes_injective (separable first created) (separable second created')
    (apart first created second created' same)

/-- A digest for examples. -/
def sizeHash (bytes : ByteArray) : ScopeHash := ⟨Vector.replicate 32 (UInt8.ofNat bytes.size)⟩

/-- A file system with one directory. -/
def rootOnly : FileSystem := ⟨fun _ => .ok "/", fun _ => true⟩

/-- A session, and a variable that is set in it. -/
def cleanSteps : List SnapshotStep :=
  [.session ⟨[], "/"⟩, .change ⟨[], "/"⟩ (.envSet ["A=1"])]

theorem computeHash_cleanSteps :
    createAll rootOnly cleanSteps = [⟨[], "/"⟩, ⟨[("A", "1")], "/"⟩] ∧
    ∀ first ∈ createAll rootOnly cleanSteps, ∀ second ∈ createAll rootOnly cleanSteps,
      first.computeHash sizeHash = second.computeHash sizeHash → first = second := by
  have created : createAll rootOnly cleanSteps = [⟨[], "/"⟩, ⟨[("A", "1")], "/"⟩] := by decide
  have small : (⟨[], "/"⟩ : EnvSnapshot).canonicalBytes.size = 1 := by decide
  have large : (⟨[("A", "1")], "/"⟩ : EnvSnapshot).canonicalBytes.size = 5 := by decide
  refine ⟨created, computeHash_injective sizeHash cleanSteps (fun path resolved found => ?_) ?_ ?_⟩
  · cases found
    decide
  · rw [created]
    simp [sizeHash, small, large]
  · intro step member
    rcases List.mem_cons.mp member with rfl | later
    · exact ⟨by simp, by simp, by decide⟩
    · cases List.mem_singleton.mp later
      simp [SnapshotStep.Separable]

/-- A variable whose value holds a NUL, and two variables. -/
def collidingSteps : List SnapshotStep :=
  [.session ⟨[], "/"⟩, .change ⟨[], "/"⟩ (.envSet ["A=1\x00B=2"]),
    .change ⟨[], "/"⟩ (.envSet ["A=1", "B=2"])]

/-- One assignment `A=1␀B=2` has the address of the two assignments `A=1` and `B=2`. -/
theorem computeHash_collides :
    createAll rootOnly collidingSteps =
      [⟨[], "/"⟩, ⟨[("A", "1\x00B=2")], "/"⟩, ⟨[("A", "1"), ("B", "2")], "/"⟩] ∧
    (⟨[("A", "1\x00B=2")], "/"⟩ : EnvSnapshot).canonicalBytes =
      (⟨[("A", "1"), ("B", "2")], "/"⟩ : EnvSnapshot).canonicalBytes ∧
    (⟨[("A", "1\x00B=2")], "/"⟩ : EnvSnapshot) ≠ ⟨[("A", "1"), ("B", "2")], "/"⟩ := by
  have text : (⟨[("A", "1\x00B=2")], "/"⟩ : EnvSnapshot).canonicalText =
      (⟨[("A", "1"), ("B", "2")], "/"⟩ : EnvSnapshot).canonicalText := by decide
  refine ⟨by decide, ?_, by decide⟩
  rw [EnvSnapshot.canonicalBytes, text]
  rfl

end Creation

end CueShell
