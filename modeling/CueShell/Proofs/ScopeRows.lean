import CueShell.Proofs.ScopeStoreSteps

/-! # The rows that name scopes

Every statement but the sweep keeps the scopes that are persisted, adds a scope only if its parent is
persisted and none of its names is sensitive, and stores a scope in a job, a cron or a session only
if it is persisted. What holds of the rows over whole runs follows from this alone.
-/

namespace CueShell

/-- The row that a scope is stored in. -/
def Scope.row (scope : Scope) : ScopeRow :=
  ⟨scope.parent, scope.delta.map .encoded, scope.snapshot.map .encoded⟩

namespace Database

variable {db after : Database} {hash : ScopeHash}

/-- A job, a cron or a session has the scope. -/
def NamedByRow (db : Database) (hash : ScopeHash) : Prop :=
  (∃ id row, db.jobs.get id = some row ∧ (row.scopeHash = some hash ∨ row.job.startScope = some hash ∨
    row.job.endScope = some hash)) ∨
  (∃ id row, db.crons.get id = some row ∧ row.cron.scopeHash = some hash) ∨
  ∃ id row, db.sessions.get id = some row ∧ row.scopeHash = some hash

/-- A persisted row has the scope, as a parent or otherwise. -/
def Stores (db : Database) (hash : ScopeHash) : Prop :=
  (∃ child row, db.scopes.get child = some row ∧ row.parent = some hash) ∨ db.NamedByRow hash

/-- Some row of a table satisfies a test. -/
theorem exists_key_iff {κ ν : Type} (table : Table κ ν) (test : ν → Bool) :
    (∃ key ∈ table.keys, (table.get key).any test = true) ↔
      ∃ key value, table.get key = some value ∧ test value = true := by
  constructor
  · rintro ⟨key, -, passed⟩
    obtain ⟨value, found, passes⟩ := (Option.any_eq_true _ _).mp passed
    exact ⟨key, value, found, passes⟩
  · rintro ⟨key, value, found, passes⟩
    refine ⟨key, ?_, (Option.any_eq_true _ _).mpr ⟨value, found, passes⟩⟩
    rw [table.mem_keys, found]
    rfl

theorem references_iff : db.references hash = true ↔ db.NamedByRow hash := by
  simp only [references, NamedByRow, Bool.or_eq_true, decide_eq_true_eq, exists_key_iff, or_assoc]

/-- What a statement other than the sweep may do to the rows. -/
structure Written (db after : Database) : Prop where
  kept : ∀ hash, db.isPersistedScope hash → after.isPersistedScope hash
  scopes : ∀ hash row, after.scopes.get hash = some row → db.scopes.get hash = some row ∨
    ∃ scope : Scope, scope.hash = hash ∧ scope.row = row ∧
      scopeContainsSensitiveEnvironment scope = false ∧
      ∀ parent, scope.parent = some parent → db.isPersistedScope parent
  named : ∀ hash, after.NamedByRow hash → db.NamedByRow hash ∨ db.isPersistedScope hash

theorem Written.refl (db : Database) : Written db db :=
  ⟨fun _ persisted => persisted, fun _ _ found => .inl found, fun _ named => .inl named⟩

/-- A statement that does not touch the scopes. -/
theorem Written.of_scopes (same : after.scopes = db.scopes)
    (named : ∀ hash, after.NamedByRow hash → db.NamedByRow hash ∨ db.isPersistedScope hash) :
    Written db after where
  kept hash persisted := by rwa [isPersistedScope, same]
  scopes hash row found := .inl (same ▸ found)
  named := named

theorem isPersistedScope_iff : db.isPersistedScope hash = true ↔ ∃ row, db.scopes.get hash = some row :=
  Option.isSome_iff_exists

theorem insertScope_written (db : Database) (scope : Scope) : Written db (db.insertScope scope).2 := by
  unfold insertScope
  split_ifs with sensitive volatile persisted
  · exact .refl db
  · exact .refl db
  · exact .refl db
  · refine ⟨fun hash found => ?_, fun hash row found => ?_, fun _ named => .inl named⟩
    · dsimp only [isPersistedScope] at found ⊢
      rw [Table.get_insert]
      split_ifs
      · rfl
      · exact found
    · dsimp only at found
      rw [Table.get_insert] at found
      split_ifs at found with isHash
      · refine .inr ⟨scope, isHash.symm, Option.some.inj found, by simpa using sensitive, ?_⟩
        intro parent link
        rw [link] at volatile
        simpa using volatile
      · exact .inl found

theorem durableScopeReference_eq_some {scope : Option ScopeHash}
    (stored : db.durableScopeReference scope = some hash) : db.isPersistedScope hash = true :=
  (Option.filter_eq_some_iff.mp stored).2

theorem upsertSession_written {session : StoredSession} {durable : Bool}
    (done : db.upsertSession session = .ok (durable, after)) : Written db after := by
  unfold upsertSession at done
  dsimp only at done
  split at done
  next => exact absurd done (by simp)
  next =>
    obtain ⟨-, rfl⟩ := Prod.mk.inj (Except.ok.inj done)
    refine .of_scopes rfl fun hash named => ?_
    rcases named with job | cron | ⟨id, row, found, same⟩
    · exact .inl (.inl job)
    · exact .inl (.inr (.inl cron))
    · dsimp only at found
      rw [Table.get_insert] at found
      split_ifs at found with isId
      · obtain rfl := Option.some.inj found
        exact .inr (durableScopeReference_eq_some same)
      · exact .inl (.inr (.inr ⟨id, row, found, same⟩))

theorem upsertJobHistory_written {job : StoredJob} (done : db.upsertJobHistory job = .ok after) :
    Written db after := by
  unfold upsertJobHistory at done
  dsimp only at done
  split at done
  next =>
    obtain rfl := Except.ok.inj done
    refine .of_scopes rfl fun hash named => ?_
    rcases named with ⟨id, row, found, same⟩ | cron | session
    · dsimp only at found
      rw [Table.get_insert] at found
      split_ifs at found with isId
      · obtain rfl := Option.some.inj found
        right
        rcases same with same | same | same
        · exact durableScopeReference_eq_some same
        · exact durableScopeReference_eq_some same
        · exact durableScopeReference_eq_some same
      · exact .inl (.inl ⟨id, row, found, same⟩)
    · exact .inl (.inr (.inl cron))
    · exact .inl (.inr (.inr session))
  next => exact absurd done (by simp)

theorem upsertCron_written {id : String} {cron : StoredCron} (done : db.upsertCron id cron = .ok after) :
    Written db after := by
  unfold upsertCron at done
  dsimp only at done
  split at done
  next =>
    obtain rfl := Except.ok.inj done
    refine .of_scopes rfl fun hash named => ?_
    rcases named with job | ⟨other, row, found, same⟩ | session
    · exact .inl (.inl job)
    · dsimp only at found
      rw [Table.get_insert] at found
      by_cases isId : other = id
      · rw [if_pos isId] at found
        obtain rfl := Option.some.inj found
        right
        dsimp only at same
        split_ifs at same with volatile
        rw [same] at volatile
        simpa using volatile
      · rw [if_neg isId] at found
        exact .inl (.inr (.inl ⟨other, row, found, same⟩))
    · exact .inl (.inr (.inr session))
  next => exact absurd done (by simp)

theorem deleteCron_written (db : Database) (id : String) : Written db (db.deleteCron id) := by
  refine .of_scopes rfl fun hash named => .inl ?_
  rcases named with job | ⟨other, row, found, same⟩ | session
  · exact .inl job
  · dsimp only [deleteCron] at found
    rw [Table.get_erase] at found
    split_ifs at found
    exact .inr (.inl ⟨other, row, found, same⟩)
  · exact .inr (.inr session)

theorem get_foldl_erase {κ ν : Type} [DecidableEq κ] (removed : List κ) {table : Table κ ν} {key : κ} {value : ν}
    (found : (removed.foldl Table.erase table).get key = some value) : table.get key = some value := by
  induction removed generalizing table with
  | nil => exact found
  | cons first rest ih =>
    have later := ih found
    rw [Table.get_erase] at later
    split_ifs at later
    exact later

theorem pruneJobHistory_written (db : Database) (removed : List String) :
    Written db (db.pruneJobHistory removed) := by
  refine .of_scopes rfl fun hash named => .inl ?_
  rcases named with ⟨id, row, found, same⟩ | cron | session
  · exact .inl ⟨id, row, get_foldl_erase removed found, same⟩
  · exact .inr (.inl cron)
  · exact .inr (.inr session)

end Database

namespace ScopeStore

open Database

variable {computeHash : EnvSnapshot → ScopeHash}

/-- A statement that fails has written nothing. -/
theorem withDb_written {store : ScopeStore} {result : Except StorageError Database}
    (written : ∀ after, result = .ok after → Written store.db after) :
    Written store.db (store.withDb result).db := by
  cases result with
  | ok after => exact written after rfl
  | error error => exact .refl store.db

theorem derive_written (store : ScopeStore) (base : ScopeHash) (delta : EnvDelta) :
    Written store.db (store.derive computeHash base delta).2.db := by
  have same := (loadScope_filled store base).db
  unfold ScopeStore.derive deriveScope
  cases loaded : store.loadScope base with
  | mk result after =>
    rw [loaded] at same
    dsimp only at same
    cases result with
    | error error => exact same ▸ .refl store.db
    | ok found =>
      cases found with
      | none => exact same ▸ .refl store.db
      | some parent =>
        dsimp only
        cases parent.snapshot with
        | none => exact same ▸ .refl store.db
        | some snapshot =>
          dsimp only [ScopeStore.insert]
          rw [same]
          exact insertScope_written store.db _

/-- A step that is no garbage collection. -/
def NoSweep : ScopeOp → Prop
  | .garbageCollect _ => False
  | _ => True

/-- Every step but garbage collection writes rows as above. -/
theorem step_written (store : ScopeStore) {op : ScopeOp} (plain : NoSweep op) :
    Written store.db (store.step computeHash op).db := by
  cases op with
  | insert scope => exact insertScope_written store.db scope
  | derive base delta => exact derive_written store base delta
  | getScope hash => exact (loadScope_filled store hash).db ▸ .refl store.db
  | listScopes order =>
    unfold step
    dsimp only
    split
    · exact .refl store.db
    · exact .refl store.db
  | garbageCollect roots => exact plain.elim
  | upsertSession session =>
    refine withDb_written fun after done => ?_
    cases upserted : store.db.upsertSession session with
    | error error => simp [upserted, Except.map] at done
    | ok answer =>
      obtain ⟨durable, written⟩ := answer
      obtain rfl : written = after := by simpa [upserted, Except.map] using done
      exact upsertSession_written upserted
  | upsertJobHistory job => exact withDb_written fun _ => upsertJobHistory_written
  | upsertCron id cron => exact withDb_written fun _ => upsertCron_written
  | deleteCron id => exact deleteCron_written store.db id
  | pruneJobHistory removed => exact pruneJobHistory_written store.db removed
  | restart environment => exact insertScope_written store.db _

/-- Garbage collection writes nothing, or it sweeps. -/
theorem step_garbageCollect (store : ScopeStore) (roots : List ScopeHash) :
    Filled store (store.step computeHash (.garbageCollect roots)) ∨
      ∃ reachable, mark store.visit (store.gcRounds roots) ∅ roots = some (.ok reachable) ∧
        Swept store reachable (store.step computeHash (.garbageCollect roots)) := by
  obtain ⟨result, after, ended, failed | collected⟩ := garbageCollect_ends store roots
  · obtain ⟨error, -, filled, -⟩ := failed
    left
    dsimp only [step]
    rwa [ended]
  · obtain ⟨report, reachable, -, done, swept⟩ := collected
    refine .inr ⟨reachable, done, ?_⟩
    dsimp only [step]
    rwa [ended]

end ScopeStore

end CueShell
