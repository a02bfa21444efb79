import CueShell.Model.ScopeStore

/-! # Steps of the scope store

Loading fills the cache from the database and changes no lookup. So the mark loop of the store is the
mark loop of the graph that its lookups give, and garbage collection either changes no lookup or
leaves exactly the scopes that the roots reach.
-/

namespace CueShell

theorem Database.getScope_eq_some {db : Database} {hash : ScopeHash} {scope : Scope}
    (found : db.getScope hash = .ok (some scope)) :
    ∃ row, db.scopes.get hash = some row ∧ scope.hash = hash ∧ scope.parent = row.parent := by
  unfold Database.getScope at found
  split at found
  next => exact absurd found (by simp)
  next row listed =>
    refine ⟨row, listed, ?_⟩
    unfold Database.scopeFromRow at found
    cases delta : Database.decodeColumn .corruptDelta row.delta with
    | error error => simp [delta, bind, Except.bind, Except.map] at found
    | ok delta =>
      cases snapshot : Database.decodeColumn .corruptSnapshot row.snapshot with
      | error error => simp_all [bind, Except.bind, Except.map]
      | ok snapshot =>
        simp_all only [bind, Except.bind, Except.map, Except.ok.injEq, Option.some.injEq]
        rw [← found]
        exact ⟨rfl, rfl⟩

theorem Database.getScope_congr {first second : Database} (same : first.scopes = second.scopes)
    (hash : ScopeHash) : first.getScope hash = second.getScope hash := by
  unfold Database.getScope
  rw [same]

namespace ScopeStore

variable {store after : ScopeStore} {hash : ScopeHash}

/-- The cache has been filled from the database, and nothing else has changed. -/
structure Filled (store after : ScopeStore) : Prop where
  db : after.db = store.db
  cached : ∀ hash, after.cache.get hash = store.cache.get hash ∨
    store.cache.get hash = none ∧ ∃ scope, store.db.getScope hash = .ok (some scope) ∧
      after.cache.get hash = some scope

theorem Filled.refl (store : ScopeStore) : Filled store store := ⟨rfl, fun _ => .inl rfl⟩

theorem Filled.trans {last : ScopeStore} (first : Filled store after) (second : Filled after last) :
    Filled store last where
  db := second.db.trans first.db
  cached hash := by
    rcases second.cached hash with same | ⟨absent, scope, found, inserted⟩
    · rw [same]
      exact first.cached hash
    · rcases first.cached hash with same | ⟨-, scope', -, inserted'⟩
      · exact .inr ⟨same ▸ absent, scope, first.db ▸ found, inserted⟩
      · exact absurd absent (by simp [inserted'])

theorem Filled.lookup (filled : Filled store after) (hash : ScopeHash) :
    after.lookup hash = store.lookup hash := by
  unfold ScopeStore.lookup
  rcases filled.cached hash with same | ⟨absent, scope, found, inserted⟩
  · rw [same, filled.db]
  · rw [absent, inserted]
    exact found.symm

theorem loadScope_fst (store : ScopeStore) (hash : ScopeHash) :
    (store.loadScope hash).1 = store.lookup hash := by
  unfold loadScope lookup
  split
  · rfl
  · split
    next found => exact found.symm
    next => rfl

theorem loadScope_filled (store : ScopeStore) (hash : ScopeHash) :
    Filled store (store.loadScope hash).2 := by
  unfold loadScope
  split
  next => exact .refl store
  next absent =>
    split
    next scope found =>
      refine ⟨rfl, fun other => ?_⟩
      obtain ⟨row, -, same, -⟩ := Database.getScope_eq_some found
      dsimp only
      rw [Table.get_insert, same]
      split
      next isHash => exact .inr ⟨isHash ▸ absent, scope, isHash ▸ found, rfl⟩
      next => exact .inl rfl
    next => exact .refl store

section Mark

/-- The parent of a scope, as garbage collection finds it. -/
def visit (store : ScopeStore) (hash : ScopeHash) : Except ScopeError (Option ScopeHash) :=
  match store.lookup hash with
  | .error error => .error (.storage error)
  | .ok none => .error (.missing hash)
  | .ok (some scope) => .ok scope.parent

theorem Filled.visit (filled : Filled store after) : after.visit = store.visit := by
  funext hash
  rw [ScopeStore.visit, ScopeStore.visit, filled.lookup]

/-- The store's mark loop is the mark loop over its lookups. -/
theorem markReachable_eq (rounds : ℕ) (store : ScopeStore) (reachable : Finset ScopeHash)
    (pending : List ScopeHash) :
    match mark store.visit rounds reachable pending with
    | none => markReachable rounds store reachable pending = none
    | some result => ∃ after, markReachable rounds store reachable pending = some (result, after) ∧
        Filled store after := by
  induction rounds generalizing store reachable pending with
  | zero => rfl
  | succ rounds ih =>
    cases pending with
    | nil => exact ⟨store, rfl, .refl store⟩
    | cons hash pending =>
      rw [mark, markReachable]
      split_ifs
      · exact ih store reachable pending
      · have filled := loadScope_filled store hash
        have answer := loadScope_fst store hash
        cases loaded : store.loadScope hash with
        | mk result after =>
          rw [loaded] at filled answer
          dsimp only at filled answer
          rw [visit, ← answer]
          cases result with
          | error error => exact ⟨after, rfl, filled⟩
          | ok found =>
            cases found with
            | none => exact ⟨after, rfl, filled⟩
            | some scope =>
              have rest := ih after (Insert.insert hash reachable) (scope.parent.toList ++ pending)
              rw [filled.visit] at rest
              dsimp only
              generalize mark store.visit rounds (Insert.insert hash reachable)
                (scope.parent.toList ++ pending) = marked at rest ⊢
              cases marked with
              | none => exact rest
              | some result =>
                obtain ⟨last, same, filledLast⟩ := rest
                exact ⟨last, same, filled.trans filledLast⟩

/-- Every scope that a visit finds is cached or persisted. -/
theorem visit_known {next : Option ScopeHash} (visited : store.visit hash = .ok next) :
    hash ∈ store.cache.keys ∪ store.db.scopes.keys := by
  rw [Finset.mem_union, store.cache.mem_keys, store.db.scopes.mem_keys]
  unfold visit lookup at visited
  cases cached : store.cache.get hash with
  | some scope => exact .inl rfl
  | none =>
    right
    simp only [cached] at visited
    unfold Database.getScope at visited
    cases listed : store.db.scopes.get hash with
    | some row => rfl
    | none => simp [listed] at visited

/-- The rounds given to the mark loop are enough. -/
theorem mark_gcRounds (store : ScopeStore) (roots : List ScopeHash) :
    ∃ result, mark store.visit (store.gcRounds roots) ∅ roots = some result := by
  refine mark_isSome (store.cache.keys ∪ store.db.scopes.keys) (fun _ _ => visit_known) ?_
  rw [Finset.sdiff_empty]
  exact Nat.lt_succ_self _

end Mark

section Collect

/-- A store after a sweep that kept the given scopes. -/
structure Swept (store : ScopeStore) (reachable : Finset ScopeHash) (after : ScopeStore) : Prop where
  cache : ∃ filled, Filled store filled ∧
    after.cache = filled.cache.retain fun hash _ => hash ∈ reachable
  db : after.db = { store.db with
    scopes := store.db.scopes.retain fun hash _ => hash ∈ reachable
    scopeHead := store.db.scopeHead.filter (· ∈ reachable) }
  unreferenced : ∀ hash row, store.db.scopes.get hash = some row → hash ∉ reachable →
    store.db.references hash = false

theorem sweepScopes_ok {db db' : Database} {reachable : Finset ScopeHash} {removed : ℕ}
    (swept : db.sweepScopes reachable = .ok (removed, db')) :
    db' = { db with
      scopes := db.scopes.retain fun hash _ => hash ∈ reachable
      scopeHead := db.scopeHead.filter (· ∈ reachable) } ∧
    ∀ hash row, db.scopes.get hash = some row → hash ∉ reachable → db.references hash = false := by
  unfold Database.sweepScopes at swept
  split at swept
  next => exact absurd swept (by simp)
  next covered =>
    obtain ⟨-, rfl⟩ := Prod.mk.inj (Except.ok.inj swept)
    refine ⟨rfl, fun hash row listed unmarked => ?_⟩
    by_contra referenced
    refine covered ⟨hash, ?_, unmarked, by simpa using referenced⟩
    rw [db.scopes.mem_keys, listed]
    rfl

theorem sweepScopes_error {db : Database} {reachable : Finset ScopeHash} {error : StorageError}
    (refused : db.sweepScopes reachable = .error error) : ∃ hash, db.references hash = true := by
  unfold Database.sweepScopes at refused
  split at refused
  next unmarked =>
    obtain ⟨hash, -, -, referenced⟩ := unmarked
    exact ⟨hash, referenced⟩
  next => exact absurd refused (by simp)

/-- Garbage collection ends. It fails and changes no lookup, because a scope is missing or a durable
reference is not marked; or it keeps exactly what the roots reach. -/
theorem garbageCollect_ends (store : ScopeStore) (roots : List ScopeHash) :
    ∃ result after, store.garbageCollect (store.gcRounds roots) roots = some (result, after) ∧
      ((∃ error, result = .error error ∧ Filled store after ∧
          (mark store.visit (store.gcRounds roots) ∅ roots = some (.error error) ∨
            (∃ fault, error = .storage fault) ∧ ∃ hash, store.db.references hash = true)) ∨
        ∃ report reachable, result = .ok report ∧
          mark store.visit (store.gcRounds roots) ∅ roots = some (.ok reachable) ∧
          Swept store reachable after) := by
  obtain ⟨marked, done⟩ := mark_gcRounds store roots
  have loop := markReachable_eq (store.gcRounds roots) store ∅ roots
  rw [done] at loop
  obtain ⟨filled, same, isFilled⟩ := loop
  unfold garbageCollect
  rw [same]
  cases marked with
  | error error => exact ⟨_, _, rfl, .inl ⟨error, rfl, isFilled, .inl done⟩⟩
  | ok reachable =>
    dsimp only
    rw [isFilled.db]
    cases swept : store.db.sweepScopes reachable with
    | error error =>
      exact ⟨_, _, rfl, .inl ⟨_, rfl, isFilled, .inr ⟨⟨error, rfl⟩, sweepScopes_error swept⟩⟩⟩
    | ok answer =>
      obtain ⟨removed, db⟩ := answer
      obtain ⟨shape, unreferenced⟩ := sweepScopes_ok swept
      exact ⟨_, _, rfl, .inr ⟨_, reachable, rfl, done, ⟨filled, isFilled, rfl⟩, shape, unreferenced⟩⟩

theorem Swept.cached {reachable : Finset ScopeHash} (swept : Swept store reachable after) :
    ∃ filled, Filled store filled ∧ ∀ hash, after.cache.get hash =
      if hash ∈ reachable then filled.cache.get hash else none := by
  obtain ⟨filled, isFilled, cache⟩ := swept.cache
  refine ⟨filled, isFilled, fun hash => ?_⟩
  rw [cache, Table.get_retain_key]
  simp

theorem Swept.rows {reachable : Finset ScopeHash} (swept : Swept store reachable after) (hash : ScopeHash) :
    after.db.scopes.get hash = if hash ∈ reachable then store.db.scopes.get hash else none := by
  rw [swept.db]
  dsimp only
  rw [Table.get_retain_key]
  simp

theorem Swept.lookup_kept {reachable : Finset ScopeHash} (swept : Swept store reachable after)
    (kept : hash ∈ reachable) : after.lookup hash = store.lookup hash := by
  obtain ⟨filled, isFilled, cached⟩ := swept.cached
  have row : after.db.getScope hash = filled.db.getScope hash := by
    rw [isFilled.db, Database.getScope, Database.getScope, swept.rows, if_pos kept]
  rw [← isFilled.lookup, lookup, lookup, cached, if_pos kept, row]

theorem Swept.lookup_removed {reachable : Finset ScopeHash} (swept : Swept store reachable after)
    (removed : hash ∉ reachable) : after.lookup hash = .ok none := by
  obtain ⟨filled, isFilled, cached⟩ := swept.cached
  rw [lookup, cached, if_neg removed, Database.getScope, swept.rows, if_neg removed]

end Collect

end ScopeStore

end CueShell
