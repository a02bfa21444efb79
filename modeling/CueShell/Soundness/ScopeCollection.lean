import CueShell.Proofs.ScopeStoreSteps

/-! # Garbage collection of scopes

Scopes are addressed by their content, so a scope that is created with the content of its own
ancestor closes a cycle of parent links. Garbage collection ends nevertheless, keeps what the roots
reach and removes the rest. The roots of the scheduler name every scope in its state.
-/

namespace CueShell

namespace ScopeStore

variable {computeHash : EnvSnapshot → ScopeHash} {store after : ScopeStore} {hash : ScopeHash}

/-- A lookup of the hash finds a scope. -/
def Resolves (store : ScopeStore) (hash : ScopeHash) : Prop :=
  ∃ scope, store.lookup hash = .ok (some scope)

/-- The store has been built by creating scopes, one after the other. -/
def Created (computeHash : EnvSnapshot → ScopeHash) (store : ScopeStore) : Prop :=
  ∃ (environment : EnvSnapshot) (creations : List Creation),
    store = run computeHash (start computeHash .empty environment)
      (creations.map (Creation.op computeHash))

/-- What holds while scopes are only created. -/
structure Sound (store : ScopeStore) : Prop where
  readable : ∀ hash, ∃ answer, store.lookup hash = .ok answer
  hashed : ∀ hash scope, store.lookup hash = .ok (some scope) → scope.hash = hash
  ancestors : ∀ hash scope parent, store.lookup hash = .ok (some scope) →
    scope.parent = some parent → store.Resolves parent
  unreferenced : ∀ hash, store.db.references hash = false

section Create

theorem insertScope_scopes (db : Database) (scope : Scope) {hash : ScopeHash} (other : hash ≠ scope.hash) :
    (db.insertScope scope).2.scopes.get hash = db.scopes.get hash := by
  unfold Database.insertScope
  split_ifs
  · rfl
  · rfl
  · rfl
  · dsimp only
    rw [Table.get_insert, if_neg other]

theorem insertScope_references (db : Database) (scope : Scope) (hash : ScopeHash) :
    (db.insertScope scope).2.references hash = db.references hash := by
  unfold Database.insertScope
  split_ifs <;> rfl

/-- An insertion changes the lookup of its own hash only. -/
theorem lookup_insert (store : ScopeStore) (scope : Scope) (hash : ScopeHash) :
    (store.insert scope).2.lookup hash =
      if hash = scope.hash then .ok (some scope) else store.lookup hash := by
  unfold ScopeStore.insert lookup
  dsimp only
  rw [Table.get_insert]
  split_ifs with isHash
  · rfl
  · have row : (store.db.insertScope scope).2.getScope hash = store.db.getScope hash := by
      rw [Database.getScope, Database.getScope, insertScope_scopes store.db scope isHash]
    rw [row]

theorem Resolves.insert (resolves : store.Resolves hash) (scope : Scope) :
    (store.insert scope).2.Resolves hash := by
  unfold Resolves
  rw [lookup_insert]
  split
  · exact ⟨scope, rfl⟩
  · exact resolves

/-- A scope whose parent is there may be inserted. -/
theorem Sound.insert (sound : store.Sound) (scope : Scope)
    (rooted : ∀ parent, scope.parent = some parent → store.Resolves parent) :
    (store.insert scope).2.Sound where
  readable hash := by
    rw [lookup_insert]
    split
    · exact ⟨_, rfl⟩
    · exact sound.readable hash
  hashed hash found same := by
    rw [lookup_insert] at same
    split at same
    next isHash =>
      obtain rfl := Option.some.inj (Except.ok.inj same)
      exact isHash.symm
    next => exact sound.hashed hash found same
  ancestors hash found parent same link := by
    rw [lookup_insert] at same
    split at same
    next =>
      obtain rfl := Option.some.inj (Except.ok.inj same)
      exact (rooted parent link).insert scope
    next => exact (sound.ancestors hash found parent same link).insert scope
  unreferenced hash := (insertScope_references store.db scope hash).trans (sound.unreferenced hash)

theorem Filled.resolves (filled : Filled store after) : after.Resolves hash ↔ store.Resolves hash := by
  rw [Resolves, Resolves, filled.lookup]

theorem Filled.sound (filled : Filled store after) (sound : store.Sound) : after.Sound where
  readable hash := by
    rw [filled.lookup]
    exact sound.readable hash
  hashed hash scope found := sound.hashed hash scope (filled.lookup hash ▸ found)
  ancestors hash scope parent found link :=
    filled.resolves.mpr (sound.ancestors hash scope parent (filled.lookup hash ▸ found) link)
  unreferenced hash := by
    rw [filled.db]
    exact sound.unreferenced hash

theorem Sound.derive (sound : store.Sound) (base : ScopeHash) (delta : EnvDelta) :
    (store.derive computeHash base delta).2.Sound := by
  have filled := loadScope_filled store base
  have answer := loadScope_fst store base
  unfold ScopeStore.derive deriveScope
  cases loaded : store.loadScope base with
  | mk result after =>
    rw [loaded] at filled answer
    dsimp only at filled answer
    cases result with
    | error error => exact filled.sound sound
    | ok found =>
      cases found with
      | none => exact filled.sound sound
      | some parent =>
        dsimp only
        cases snapshot : parent.snapshot with
        | none => exact filled.sound sound
        | some snapshot =>
          dsimp only
          refine (filled.sound sound).insert _ fun grand link => ?_
          obtain rfl : parent.hash = grand := Option.some.inj link
          rw [sound.hashed base parent answer.symm]
          exact filled.resolves.mpr ⟨parent, answer.symm⟩

theorem sound_empty : (⟨.empty, .empty⟩ : ScopeStore).Sound where
  readable _ := ⟨none, rfl⟩
  hashed _ _ found := absurd found (by simp [lookup, Database.getScope, Database.empty])
  ancestors _ _ _ found := absurd found (by simp [lookup, Database.getScope, Database.empty])
  unreferenced _ := by simp [Database.references, Database.empty, Table.empty]

theorem Created.sound (created : store.Created computeHash) : store.Sound := by
  obtain ⟨environment, creations, rfl⟩ := created
  have begin : (start computeHash .empty environment).Sound := sound_empty.insert _ (by simp [Scope.root])
  generalize start computeHash .empty environment = store at begin
  induction creations generalizing store with
  | nil => exact begin
  | cons creation rest ih =>
    refine ih _ ?_
    cases creation with
    | root environment => exact begin.insert _ (by simp [Scope.root])
    | derive base delta => exact begin.derive base delta

end Create

section Collect

/-- The parent link of a scope, as a lookup shows it. -/
def ParentLink (store : ScopeStore) (child parent : ScopeHash) : Prop :=
  ∃ scope, store.lookup child = .ok (some scope) ∧ scope.parent = some parent

/-- A hash that some root leads to through parent links. -/
def Live (store : ScopeStore) (roots : List ScopeHash) (hash : ScopeHash) : Prop :=
  ∃ root ∈ roots, Relation.ReflTransGen store.ParentLink root hash

theorem visit_eq_ok {next : Option ScopeHash} :
    store.visit hash = .ok next ↔ ∃ scope, store.lookup hash = .ok (some scope) ∧ scope.parent = next := by
  unfold visit
  split
  next error failed => simp [failed]
  next absent => simp [absent]
  next scope found => simp [found]

theorem leadsTo_iff (store : ScopeStore) : LeadsTo store.visit = store.ParentLink := by
  funext child parent
  exact propext visit_eq_ok

theorem reaches_iff (store : ScopeStore) (roots : List ScopeHash) :
    Reaches store.visit roots hash ↔ store.Live roots hash := by
  rw [Reaches, leadsTo_iff, Live]

/-- A live scope resolves if the roots do. -/
theorem Sound.live (sound : store.Sound) {roots : List ScopeHash}
    (rooted : ∀ root ∈ roots, store.Resolves root) (live : store.Live roots hash) :
    store.Resolves hash := by
  obtain ⟨root, member, path⟩ := live
  induction path with
  | refl => exact rooted root member
  | tail _ link _ =>
    obtain ⟨scope, found, isParent⟩ := link
    exact sound.ancestors _ scope _ found isParent

/-- Marking fails at a live hash that does not resolve. -/
theorem mark_fails {roots : List ScopeHash} {rounds : ℕ} {error : ScopeError}
    (failed : mark store.visit rounds ∅ roots = some (.error error)) :
    ∃ hash, store.Live roots hash ∧ ¬ store.Resolves hash := by
  obtain ⟨hash, reached, broken⟩ := mark_error failed
  refine ⟨hash, (reaches_iff store roots).mp reached, ?_⟩
  rintro ⟨scope, found⟩
  rw [visit_eq_ok.mpr ⟨scope, found, rfl⟩] at broken
  exact absurd broken (by simp)

/-- Marking succeeds only if every live hash resolves. -/
theorem mark_resolves {roots : List ScopeHash} {rounds : ℕ} {reachable : Finset ScopeHash}
    (done : mark store.visit rounds ∅ roots = some (.ok reachable)) (live : store.Live roots hash) :
    store.Resolves hash := by
  obtain ⟨-, -, -, origin⟩ := mark_ok (by simp [ClosedBut]) done
  have member := (mark_iff done hash).mpr ((reaches_iff store roots).mpr live)
  rcases origin hash member with none | ⟨-, next, visited⟩
  · exact absurd none (by simp)
  · obtain ⟨scope, found, -⟩ := visit_eq_ok.mp visited
    exact ⟨scope, found⟩

/-- The scopes that are left are the live ones, and they are as before. -/
structure Collected (store : ScopeStore) (roots : List ScopeHash) (after : ScopeStore) : Prop where
  kept : ∀ hash, store.Live roots hash → after.Resolves hash ∧ after.lookup hash = store.lookup hash
  removed : ∀ hash, ¬ store.Live roots hash → after.lookup hash = .ok none

/-- Garbage collection ends: it fails and changes no lookup, or it leaves the live scopes. -/
theorem garbageCollect_result (store : ScopeStore) (roots : List ScopeHash) :
    ∃ result after, store.garbageCollect (store.gcRounds roots) roots = some (result, after) ∧
      ((∃ error, result = .error error ∧ (∀ hash, after.lookup hash = store.lookup hash) ∧
          ((∃ hash, store.Live roots hash ∧ ¬ store.Resolves hash) ∨
            (∃ fault, error = .storage fault) ∧ ∃ hash, store.db.references hash = true)) ∨
        (∃ report, result = .ok report) ∧ Collected store roots after) := by
  obtain ⟨result, after, ended, failed | collected⟩ := garbageCollect_ends store roots
  · obtain ⟨error, isError, filled, cause⟩ := failed
    exact ⟨result, after, ended, .inl ⟨error, isError, filled.lookup, cause.imp_left mark_fails⟩⟩
  · obtain ⟨report, reachable, isOk, done, swept⟩ := collected
    have member (hash : ScopeHash) : hash ∈ reachable ↔ store.Live roots hash :=
      (mark_iff done hash).trans (reaches_iff store roots)
    refine ⟨result, after, ended, .inr ⟨⟨report, isOk⟩, ?_, ?_⟩⟩
    · intro hash live
      have same := swept.lookup_kept ((member hash).mpr live)
      refine ⟨?_, same⟩
      rw [Resolves, same]
      exact mark_resolves done live
    · intro hash dead
      exact swept.lookup_removed fun kept => dead ((member hash).mp kept)

end Collect

end ScopeStore

/-- A session, a chain, a job, a cron or a script of the scheduler has this scope. -/
def SchedulerState.NamesScope (state : SchedulerState) (hash : ScopeHash) : Prop :=
  (∃ id session, state.sessions.sessions.get id = some session ∧ session.scope = hash) ∨
  (∃ id chain, state.chains.get id = some chain ∧ chain.scopeHash = hash) ∨
  (∃ id chain, state.completedChains.get id = some chain ∧ chain.endScope = some hash) ∨
  (∃ id job, state.jobs.get id = some job ∧ (job.startScope = some hash ∨ job.endScope = some hash)) ∨
  (∃ id pending, state.pendingResource.get id = some pending ∧ pending.baseScope = hash) ∨
  (∃ id cron, state.crons.get id = some cron ∧ cron.scopeHash = hash) ∨
  ∃ id script, state.pendingScripts.get id = some script ∧ script.itemScope = hash

theorem mem_scopeGcRoots {state : SchedulerState} {hash : ScopeHash} (named : state.NamesScope hash) :
    hash ∈ scopeGcRoots state := by
  simp only [scopeGcRoots, Finset.mem_union, Table.mem_collect, Finset.mem_singleton,
    Option.mem_toFinset, Option.mem_def]
  rcases named with ⟨id, session, found, same⟩ | ⟨id, chain, found, same⟩ | ⟨id, chain, found, same⟩ |
    ⟨id, job, found, same⟩ | ⟨id, pending, found, same⟩ | ⟨id, cron, found, same⟩ | ⟨id, script, found, same⟩
  · exact .inl (.inl (.inl (.inl (.inl (.inl ⟨id, session, found, same.symm⟩)))))
  · exact .inl (.inl (.inl (.inl (.inl (.inr ⟨id, chain, found, same.symm⟩)))))
  · exact .inl (.inr ⟨id, chain, found, same⟩)
  · exact .inl (.inl (.inl (.inl (.inr ⟨id, job, found, same⟩))))
  · exact .inr ⟨id, pending, found, same.symm⟩
  · exact .inl (.inl (.inl (.inr ⟨id, cron, found, same.symm⟩)))
  · exact .inl (.inl (.inr ⟨id, script, found, same.symm⟩))

namespace ScopeStore

/-- Garbage collection of a store that was built by creating scopes ends, keeps what the roots reach
and removes the rest; a root that is missing fails it, and nothing changes. With the roots of the
scheduler, whatever the store is, what the state of the scheduler names still resolves. -/
theorem garbageCollect_safe (computeHash : EnvSnapshot → ScopeHash) :
    (∀ store, store.Created computeHash → ∀ roots, ∃ result after,
      store.garbageCollect (store.gcRounds roots) roots = some (result, after) ∧
      ((∀ root ∈ roots, store.Resolves root) → (∃ report, result = .ok report) ∧
        Collected store roots after) ∧
      ((∃ root ∈ roots, ¬ store.Resolves root) → (∃ error, result = .error error) ∧
        ∀ hash, after.lookup hash = store.lookup hash)) ∧
    ∀ (store : ScopeStore) (state : SchedulerState) (roots : List ScopeHash),
      (∀ hash, hash ∈ roots ↔ hash ∈ scopeGcRoots state) → ∃ result after,
        store.garbageCollect (store.gcRounds roots) roots = some (result, after) ∧
        ∀ hash, state.NamesScope hash → store.Resolves hash → after.Resolves hash := by
  constructor
  · intro store created roots
    have sound := created.sound
    obtain ⟨result, after, ended, failed | ⟨isOk, collected⟩⟩ := garbageCollect_result store roots
    · obtain ⟨error, isError, same, cause⟩ := failed
      refine ⟨result, after, ended, fun rooted => ?_, fun _ => ⟨⟨error, isError⟩, same⟩⟩
      rcases cause with ⟨hash, live, missing⟩ | ⟨-, hash, referenced⟩
      · exact absurd (sound.live rooted live) missing
      · rw [sound.unreferenced] at referenced
        exact absurd referenced (by simp)
    · refine ⟨result, after, ended, fun _ => ⟨isOk, collected⟩, ?_⟩
      rintro ⟨root, member, missing⟩
      obtain ⟨⟨scope, found⟩, same⟩ := collected.kept root ⟨root, member, .refl⟩
      exact absurd ⟨scope, same ▸ found⟩ missing
  · intro store state roots listed
    obtain ⟨result, after, ended, failed | ⟨-, collected⟩⟩ := garbageCollect_result store roots
    · obtain ⟨error, -, same, -⟩ := failed
      refine ⟨result, after, ended, fun hash _ resolves => ?_⟩
      rwa [Resolves, same]
    · refine ⟨result, after, ended, fun hash named _ => ?_⟩
      exact (collected.kept hash ⟨hash, (listed hash).mpr (mem_scopeGcRoots named), .refl⟩).1

/-- A digest for examples. -/
def cwdHash (snapshot : EnvSnapshot) : ScopeHash :=
  ⟨Vector.replicate 32 (UInt8.ofNat snapshot.cwd.length)⟩

/-- The daemon starts in `/`, a scope enters `/tmp` and a third one goes back to `/`. -/
def cyclicStore : ScopeStore :=
  run cwdHash (start cwdHash .empty ⟨[], "/"⟩) ([
    .root ⟨[], "/home"⟩,
    .derive (cwdHash ⟨[], "/"⟩) ⟨[], [], some "/tmp"⟩,
    .derive (cwdHash ⟨[], "/tmp"⟩) ⟨[], [], some "/"⟩].map (Creation.op cwdHash))

/-- The working directories `/` and `/tmp` are each other's parents. -/
theorem garbageCollect_safe_cycle :
    cyclicStore.ParentLink (cwdHash ⟨[], "/tmp"⟩) (cwdHash ⟨[], "/"⟩) ∧
    cyclicStore.ParentLink (cwdHash ⟨[], "/"⟩) (cwdHash ⟨[], "/tmp"⟩) ∧
    ∃ report after, cyclicStore.garbageCollect (cyclicStore.gcRounds [cwdHash ⟨[], "/tmp"⟩])
        [cwdHash ⟨[], "/tmp"⟩] = some (.ok report, after) ∧
      Collected cyclicStore [cwdHash ⟨[], "/tmp"⟩] after := by
  have created : cyclicStore.Created cwdHash := ⟨_, _, rfl⟩
  have resolves : ∀ root ∈ [cwdHash ⟨[], "/tmp"⟩], cyclicStore.Resolves root := by
    intro root member
    rw [List.mem_singleton.mp member]
    exact ⟨_, rfl⟩
  refine ⟨⟨_, rfl, rfl⟩, ⟨_, rfl, rfl⟩, ?_⟩
  obtain ⟨result, after, ended, collects, -⟩ := (garbageCollect_safe cwdHash).1 cyclicStore created _
  obtain ⟨⟨report, rfl⟩, collected⟩ := collects resolves
  exact ⟨report, after, ended, collected⟩

end ScopeStore

end CueShell
