import CueShell.Soundness.ScopeDurability

/-! # No sensitive environment at rest

A scope that sets a sensitive variable stays in memory, and so do its descendants. A database that was
written before this rule is purged: whatever its parent links are, the sensitive scopes go with all
their descendants, and no row names one of them afterwards.
-/

namespace CueShell

open Database

variable {computeHash : EnvSnapshot → ScopeHash} {hash : ScopeHash}

section Writes

theorem scopeContainsSensitiveEnvironment_iff {scope : Scope} :
    scopeContainsSensitiveEnvironment scope = false ↔
      ∀ name ∈ scope.envNames, isSensitiveEnvName name = false := by
  obtain ⟨own, parent, delta, snapshot⟩ := scope
  unfold scopeContainsSensitiveEnvironment Scope.envNames
  cases delta <;> cases snapshot <;> simp [List.any_eq_false, or_imp, forall_and, and_comm]

/-- Every row holds a scope that sets no sensitive variable. -/
def Database.Harmless (db : Database) : Prop :=
  ∀ hash row, db.scopes.get hash = some row →
    ∃ scope : Scope, scope.row = row ∧ ∀ name ∈ scope.envNames, isSensitiveEnvName name = false

theorem Database.Written.harmless {db after : Database} (written : Written db after)
    (harmless : db.Harmless) : after.Harmless := by
  intro hash row found
  rcases written.scopes hash row found with old | ⟨scope, -, same, clean, -⟩
  · exact harmless hash row old
  · exact ⟨scope, same, scopeContainsSensitiveEnvironment_iff.mp clean⟩

theorem harmless_empty : Database.empty.Harmless := fun _ _ found =>
  absurd found (by simp [Database.empty, Table.empty])

/-- Rows are harmless after every step, garbage collection included. -/
theorem ScopeStore.step_harmless (store : ScopeStore) (op : ScopeOp) (harmless : store.db.Harmless) :
    (store.step computeHash op).db.Harmless := by
  by_cases plain : NoSweep op
  · exact (step_written store plain).harmless harmless
  · cases op with
    | garbageCollect roots =>
      rcases @step_garbageCollect computeHash store roots with filled | ⟨reachable, -, swept⟩
      · rw [filled.db]
        exact harmless
      · intro hash row found
        rw [swept.rows] at found
        split_ifs at found
        exact harmless hash row found
    | _ => exact absurd trivial plain

/-- One row has another scope as its parent. -/
def ScopeTables.ParentRow (db : ScopeTables) (child parent : ScopeHash) : Prop :=
  ∃ row, db.scopes.get child = some row ∧ row.parent = some parent

/-- Every ancestor of a persisted scope is persisted. -/
def Database.AncestorsPersisted (db : Database) : Prop :=
  ∀ hash ancestor, db.isPersistedScope hash = true →
    Relation.ReflTransGen db.ParentRow hash ancestor → db.isPersistedScope ancestor = true

theorem Database.ScopesClosed.ancestors {db : Database} (closed : db.ScopesClosed) :
    db.AncestorsPersisted := by
  intro hash ancestor persisted path
  induction path with
  | refl => exact persisted
  | tail _ link _ =>
    obtain ⟨row, found, isParent⟩ := link
    exact closed _ (.inl ⟨_, row, found, isParent⟩)

end Writes

namespace ScopeTables

variable {db : ScopeTables} {purged : Finset ScopeHash}

section Purge

/-- A persisted scope that is sensitive by itself. -/
def Sensitive (db : ScopeTables) (hash : ScopeHash) : Prop :=
  ∃ row, db.scopes.get hash = some row ∧ persistedScopeHasSensitiveEnvironment row = true

/-- A sensitive scope or a descendant of one. -/
def Tainted (db : ScopeTables) (hash : ScopeHash) : Prop :=
  ∃ root, db.Sensitive root ∧ Relation.ReflTransGen (fun parent child => db.ParentRow child parent) root hash

theorem mem_sensitiveScopes : hash ∈ db.sensitiveScopes ↔ db.Sensitive hash := by
  rw [sensitiveScopes, Finset.mem_filter, db.scopes.mem_keys, Option.any_eq_true]
  constructor
  · rintro ⟨-, row, found, sensitive⟩
    exact ⟨row, found, sensitive⟩
  · rintro ⟨row, found, sensitive⟩
    exact ⟨by rw [found]; rfl, row, found, sensitive⟩

theorem childIn_parentLinks {order : List ScopeHash} (listed : db.scopes.Enumerates order)
    (parent child : ScopeHash) : ChildIn (db.parentLinks order) parent child ↔ db.ParentRow child parent := by
  unfold ChildIn parentLinks ParentRow
  rw [List.mem_map]
  constructor
  · rintro ⟨hash, -, same⟩
    obtain ⟨rfl, link⟩ := Prod.mk.inj same
    exact Option.bind_eq_some_iff.mp link
  · rintro ⟨row, found, isParent⟩
    refine ⟨child, (listed.2 child).mpr ?_, ?_⟩
    · rw [db.scopes.mem_keys, found]
      rfl
    · rw [found]
      exact congrArg (child, ·) isParent

theorem descends_iff {order : List ScopeHash} (listed : db.scopes.Enumerates order) :
    Descends (db.parentLinks order) db.sensitiveScopes hash ↔ db.Tainted hash := by
  have links : ChildIn (db.parentLinks order) = fun parent child => db.ParentRow child parent := by
    funext parent child
    exact propext (childIn_parentLinks listed parent child)
  simp only [Descends, Tainted, links, mem_sensitiveScopes]

/-- The loop ends with the tainted scopes. -/
theorem growLoop_purge {order : List ScopeHash} {rounds : ℕ} (listed : db.scopes.Enumerates order)
    (enough : order.length < rounds) :
    ∃ purged, growLoop (db.parentLinks order) rounds db.sensitiveScopes = some purged ∧
      ∀ hash, hash ∈ purged ↔ db.Tainted hash := by
  have few : (((db.parentLinks order).map Prod.fst).toFinset \ db.sensitiveScopes).card < rounds := by
    have names : (db.parentLinks order).map Prod.fst = order := by
      simp [parentLinks, Function.comp_def]
    rw [names]
    refine lt_of_le_of_lt (Finset.card_le_card Finset.sdiff_subset) ?_
    exact lt_of_le_of_lt (List.toFinset_card_le order) enough
  obtain ⟨purged, done⟩ := growLoop_isSome few
  refine ⟨purged, done, fun hash => ?_⟩
  rw [← descends_iff listed]
  exact growLoop_iff (fun other member => ⟨other, member, .refl⟩) (Finset.Subset.refl _) done hash

/-- A row of scopes, jobs or crons, or the head, has the scope. -/
def Names (db : ScopeTables) (hash : ScopeHash) : Prop :=
  (∃ child, db.ParentRow child hash) ∨
  (∃ id row, db.jobs.get id = some row ∧ (row.scopeHash = some hash ∨ row.job.startScope = some hash ∨
    row.job.endScope = some hash)) ∨
  (∃ id row, db.crons.get id = some row ∧ row.cron.scopeHash = some hash) ∨
  db.scopeHead = some hash

theorem removePurged_scopes (db : ScopeTables) (purged : Finset ScopeHash) (hash : ScopeHash) :
    (db.removePurged purged).2.scopes.get hash = if hash ∈ purged then none else db.scopes.get hash := by
  dsimp only [removePurged]
  rw [Table.get_retain_key]
  by_cases removed : hash ∈ purged
  · simp [removed]
  · simp [removed]

theorem clearReference_ne {scope : Option ScopeHash} (removed : hash ∈ purged) :
    clearReference purged scope ≠ some hash := by
  intro same
  have kept := (Option.filter_eq_some_iff.mp same).2
  exact absurd removed (by simpa using kept)

theorem clearCron_ne {row : CronRow} (removed : hash ∈ purged) :
    (clearCron purged row).cron.scopeHash ≠ some hash := by
  unfold clearCron
  split
  next => simp
  next unnamed =>
    intro same
    exact unnamed (by simp [namesPurged, same, removed])

/-- No row names a purged scope, if the purged scopes are closed under children. -/
theorem removePurged_names (descends : ∀ child parent, parent ∈ purged → db.ParentRow child parent →
    child ∈ purged) (removed : hash ∈ purged) : ¬ (db.removePurged purged).2.Names hash := by
  rintro (⟨child, row, found, isParent⟩ | ⟨id, row, found, named⟩ | ⟨id, row, found, named⟩ | head)
  · rw [removePurged_scopes] at found
    split_ifs at found with gone
    exact gone (descends child hash removed ⟨row, found, isParent⟩)
  · obtain ⟨old, -, rfl⟩ := Option.map_eq_some_iff.mp found
    rcases named with named | named | named
    · exact clearReference_ne removed named
    · exact clearReference_ne removed named
    · exact clearReference_ne removed named
  · obtain ⟨old, -, rfl⟩ := Option.map_eq_some_iff.mp found
    exact clearCron_ne removed named
  · exact clearReference_ne removed head

/-- The tables after the tainted scopes are purged. -/
structure Purged (db after : ScopeTables) : Prop where
  removed : ∀ hash, db.Tainted hash → after.scopes.get hash = none
  kept : ∀ hash, ¬ db.Tainted hash → after.scopes.get hash = db.scopes.get hash
  unnamed : ∀ hash, db.Tainted hash → ¬ after.Names hash

theorem purgeSensitiveScopeHistory_purged {order : List ScopeHash} {rounds : ℕ}
    (listed : db.scopes.Enumerates order) (enough : order.length < rounds) :
    ∃ report after, db.purgeSensitiveScopeHistory order rounds = some (report, after) ∧ Purged db after := by
  obtain ⟨purged, done, member⟩ := growLoop_purge listed enough
  unfold purgeSensitiveScopeHistory
  rw [done, Option.map_some]
  split_ifs with empty
  · have none (hash : ScopeHash) : ¬ db.Tainted hash := by
      rw [← member hash, empty]
      exact Finset.notMem_empty hash
    exact ⟨_, _, rfl, fun hash tainted => absurd tainted (none hash), fun _ _ => rfl,
      fun hash tainted => absurd tainted (none hash)⟩
  · refine ⟨(db.removePurged purged).1, (db.removePurged purged).2, rfl, fun hash tainted => ?_,
      fun hash clean => ?_, fun hash tainted => ?_⟩
    · rw [removePurged_scopes, if_pos ((member hash).mpr tainted)]
    · rw [removePurged_scopes, if_neg fun purged => clean ((member hash).mp purged)]
    · refine removePurged_names (fun child parent inside link => ?_) ((member hash).mpr tainted)
      obtain ⟨root, sensitive, path⟩ := (member parent).mp inside
      exact (member child).mpr ⟨root, sensitive, path.tail link⟩

end Purge

end ScopeTables

/-- Whatever is written, no persisted scope sets a sensitive variable, and its ancestors are
persisted unless a sweep deletes some. The purge of any older database ends, removes the sensitive scopes with
their descendants and nothing else, and leaves no row that names one of them. -/
theorem sensitive_environment_not_at_rest (computeHash : EnvSnapshot → ScopeHash) :
    (∀ (environment : EnvSnapshot) (ops : List ScopeOp),
      (ScopeStore.run computeHash (ScopeStore.start computeHash .empty environment) ops).db.Harmless ∧
      ((∀ op ∈ ops, ScopeStore.NoSweep op) →
        (ScopeStore.run computeHash (ScopeStore.start computeHash .empty environment) ops).db.AncestorsPersisted)) ∧
    ∀ (db : ScopeTables) (order : List ScopeHash) (rounds : ℕ), db.scopes.Enumerates order →
      order.length < rounds → ∃ report after,
        db.purgeSensitiveScopeHistory order rounds = some (report, after) ∧ db.Purged after := by
  refine ⟨fun environment ops => ⟨?_, fun plain => ?_⟩, fun db order rounds listed enough =>
    ScopeTables.purgeSensitiveScopeHistory_purged listed enough⟩
  · refine ScopeStore.run_invariant (fun store => store.db.Harmless) (fun _ _ => True)
      (fun store op harmless _ => store.step_harmless op harmless) ?_ (fun _ _ _ _ => trivial)
    exact (insertScope_written .empty _).harmless harmless_empty
  · refine Database.ScopesClosed.ancestors (ScopeStore.run_invariant (fun store => store.db.ScopesClosed)
      (fun _ op => ScopeStore.NoSweep op)
      (fun store op closed noSweep => (ScopeStore.step_written store noSweep).closed closed)
      (ScopeStore.kept_start environment).closed fun before op after split => plain op ?_)
    rw [split]
    simp

/-- Two scopes that are each other's parents, one of them with a token, and a third one. -/
def legacyTables : ScopeTables where
  scopes := ((Table.empty.insert (ScopeStore.cwdHash ⟨[], "/"⟩)
      ⟨some (ScopeStore.cwdHash ⟨[], "/tmp"⟩), none, some (.encoded ⟨[("API_TOKEN", "x")], "/"⟩)⟩).insert
      (ScopeStore.cwdHash ⟨[], "/tmp"⟩)
      ⟨some (ScopeStore.cwdHash ⟨[], "/"⟩), none, some (.encoded ⟨[], "/tmp"⟩)⟩).insert
      (ScopeStore.cwdHash ⟨[], "/home"⟩) ⟨none, none, some (.encoded ⟨[], "/home"⟩)⟩
  scopeHead := some (ScopeStore.cwdHash ⟨[], "/tmp"⟩)
  jobs := .empty
  crons := .empty

/-- The cycle is purged, and the head with it. -/
theorem sensitive_environment_not_at_rest_cycle :
    ∃ report after, legacyTables.purgeSensitiveScopeHistory [ScopeStore.cwdHash ⟨[], "/"⟩,
        ScopeStore.cwdHash ⟨[], "/tmp"⟩, ScopeStore.cwdHash ⟨[], "/home"⟩] 4 = some (report, after) ∧
      after.scopes.get (ScopeStore.cwdHash ⟨[], "/tmp"⟩) = none ∧
      ¬ after.Names (ScopeStore.cwdHash ⟨[], "/tmp"⟩) := by
  have tainted : legacyTables.Tainted (ScopeStore.cwdHash ⟨[], "/tmp"⟩) :=
    ⟨ScopeStore.cwdHash ⟨[], "/"⟩, ⟨_, rfl, by decide⟩, .single ⟨_, rfl, rfl⟩⟩
  have listed : legacyTables.scopes.Enumerates [ScopeStore.cwdHash ⟨[], "/"⟩,
      ScopeStore.cwdHash ⟨[], "/tmp"⟩, ScopeStore.cwdHash ⟨[], "/home"⟩] := by
    refine ⟨by decide, fun hash => ?_⟩
    rw [legacyTables.scopes.mem_keys]
    simp only [legacyTables, Table.get_insert, List.mem_cons, List.not_mem_nil, or_false]
    split_ifs with home tmp root <;> simp_all [Table.empty]
  obtain ⟨report, after, done, purged⟩ := (sensitive_environment_not_at_rest ScopeStore.cwdHash).2
    legacyTables _ 4 listed (by decide)
  exact ⟨report, after, done, purged.removed _ tainted, purged.unnamed _ tainted⟩

end CueShell
