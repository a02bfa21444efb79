import CueShell.Proofs.ScopeRows
import CueShell.Soundness.ScopeCollection

/-! # Durable scopes

A restart keeps the rows and drops the cache. Garbage collection follows the parent links of the
cache first, and deletes rows: a scope that was created again from another parent has two parents,
one in each. As long as garbage collection meets no such scope, every stored scope is persisted.
-/

namespace CueShell

open Database

variable {computeHash : EnvSnapshot → ScopeHash} {db db' : Database} {store after : ScopeStore}
  {hash : ScopeHash}

section Rows

/-- Every scope that a row has is persisted. -/
def Database.ScopesClosed (db : Database) : Prop :=
  ∀ hash, db.Stores hash → db.isPersistedScope hash = true

/-- Every row of a scope decodes. -/
def Database.Legible (db : Database) : Prop :=
  ∀ hash, db.isPersistedScope hash = true → ∃ scope, db.getScope hash = .ok (some scope)

theorem Scope.row_decodes (scope : Scope) : ∃ decoded, scopeFromRow hash scope.row = .ok decoded := by
  obtain ⟨own, parent, delta, snapshot⟩ := scope
  cases delta with
  | none =>
    cases snapshot with
    | none => exact ⟨_, rfl⟩
    | some snapshot => exact ⟨_, rfl⟩
  | some delta =>
    cases snapshot with
    | none => exact ⟨_, rfl⟩
    | some snapshot => exact ⟨_, rfl⟩

theorem Database.Written.closed (written : Written db db') (closed : db.ScopesClosed) :
    db'.ScopesClosed := by
  intro hash stored
  apply written.kept
  rcases stored with ⟨child, row, found, link⟩ | named
  · rcases written.scopes child row found with old | ⟨scope, -, rfl, -, rooted⟩
    · exact closed hash (.inl ⟨child, row, old, link⟩)
    · exact rooted hash link
  · rcases written.named hash named with old | persisted
    · exact closed hash (.inr old)
    · exact persisted

theorem Database.Written.legible (written : Written db db') (legible : db.Legible) : db'.Legible := by
  intro hash persisted
  obtain ⟨row, found⟩ := isPersistedScope_iff.mp persisted
  rcases written.scopes hash row found with old | ⟨scope, -, rfl, -, -⟩
  · obtain ⟨scope, decoded⟩ := legible hash (isPersistedScope_iff.mpr ⟨row, old⟩)
    refine ⟨scope, ?_⟩
    rwa [getScope, found, ← old]
  · obtain ⟨decoded, same⟩ := scope.row_decodes
    refine ⟨decoded, ?_⟩
    rw [getScope, found]
    dsimp only
    rw [same]
    rfl

theorem scopesClosed_empty : Database.empty.ScopesClosed := by
  rintro hash (⟨child, row, found, -⟩ | ⟨id, row, found, -⟩ | ⟨id, row, found, -⟩ | ⟨id, row, found, -⟩)
  · exact absurd found (by simp [Database.empty, Table.empty])
  · exact absurd found (by simp [Database.empty, Table.empty])
  · exact absurd found (by simp [Database.empty, Table.empty])
  · exact absurd found (by simp [Database.empty, Table.empty])

theorem legible_empty : Database.empty.Legible := fun _ persisted =>
  absurd persisted (by simp [isPersistedScope, Database.empty, Table.empty])

end Rows

namespace ScopeStore

section Sweep

/-- A live scope has the same parent in the cache as in its row. -/
def AgreesOnLive (store : ScopeStore) (roots : List ScopeHash) : Prop :=
  ∀ hash, store.Live roots hash → ∀ scope row, store.cache.get hash = some scope →
    store.db.scopes.get hash = some row → scope.parent = row.parent

/-- It is enough to compare the cached scopes with their rows. -/
theorem agreesOnLive_of_keys {roots : List ScopeHash} (same : ∀ hash ∈ store.cache.keys,
    (store.cache.get hash).map Scope.parent = (store.db.scopes.get hash).map ScopeRow.parent) :
    store.AgreesOnLive roots := by
  intro hash _ scope row cached found
  have parents := same hash ((store.cache.mem_keys hash).mpr (by rw [cached]; rfl))
  rw [cached, found] at parents
  exact Option.some.inj parents

/-- The parent in the row of a live scope is a parent link. -/
theorem AgreesOnLive.link {roots : List ScopeHash} {row : ScopeRow} {parent : ScopeHash}
    (agrees : store.AgreesOnLive roots) (legible : store.db.Legible) (live : store.Live roots hash)
    (found : store.db.scopes.get hash = some row) (isParent : row.parent = some parent) :
    store.ParentLink hash parent := by
  cases cached : store.cache.get hash with
  | some scope =>
    refine ⟨scope, ?_, (agrees hash live scope row cached found).trans isParent⟩
    rw [lookup, cached]
  | none =>
    obtain ⟨scope, decoded⟩ := legible hash (isPersistedScope_iff.mpr ⟨row, found⟩)
    obtain ⟨row', found', -, same⟩ := getScope_eq_some decoded
    obtain rfl : row = row' := Option.some.inj (found.symm.trans found')
    refine ⟨scope, ?_, same.trans isParent⟩
    rw [lookup, cached]
    exact decoded

theorem Swept.named {reachable : Finset ScopeHash} (swept : Swept store reachable after)
    (named : after.db.NamedByRow hash) : store.db.NamedByRow hash := by
  rw [swept.db] at named
  exact named

theorem Swept.closed {roots : List ScopeHash} {rounds : ℕ} {reachable : Finset ScopeHash}
    (swept : Swept store reachable after)
    (done : mark store.visit rounds ∅ roots = some (.ok reachable)) (closed : store.db.ScopesClosed)
    (legible : store.db.Legible) (agrees : store.AgreesOnLive roots) : after.db.ScopesClosed := by
  have member (hash : ScopeHash) : hash ∈ reachable ↔ store.Live roots hash :=
    (mark_iff done hash).trans (reaches_iff store roots)
  intro hash stored
  rw [isPersistedScope, swept.rows]
  rcases stored with ⟨child, row, found, isParent⟩ | named
  · rw [swept.rows] at found
    split_ifs at found with kept
    have link := agrees.link legible ((member child).mp kept) found isParent
    obtain ⟨root, inside, path⟩ := (member child).mp kept
    rw [if_pos ((member hash).mpr ⟨root, inside, path.tail link⟩)]
    exact closed hash (.inl ⟨child, row, found, isParent⟩)
  · have persisted := closed hash (.inr (swept.named named))
    obtain ⟨row, found⟩ := isPersistedScope_iff.mp persisted
    split_ifs with kept
    · exact persisted
    · have unreferenced := swept.unreferenced hash row found kept
      rw [references_iff.mpr (swept.named named)] at unreferenced
      exact absurd unreferenced (by simp)

theorem Swept.legible {reachable : Finset ScopeHash} (swept : Swept store reachable after)
    (legible : store.db.Legible) : after.db.Legible := by
  intro hash persisted
  rw [isPersistedScope, swept.rows] at persisted
  split_ifs at persisted with kept
  · obtain ⟨scope, decoded⟩ := legible hash persisted
    refine ⟨scope, ?_⟩
    rwa [getScope, swept.rows, if_pos kept]
  · exact absurd persisted (by simp)

end Sweep

section Rooted

/-- The parent of every scope that resolves resolves too. -/
def Rooted (store : ScopeStore) : Prop := ∀ child parent, store.ParentLink child parent → store.Resolves parent

/-- Every scope is cached under its own hash. -/
def Hashed (store : ScopeStore) : Prop := ∀ hash scope, store.cache.get hash = some scope → scope.hash = hash

theorem resolves_iff (legible : store.db.Legible) :
    store.Resolves hash ↔ (store.cache.get hash).isSome ∨ store.db.isPersistedScope hash = true := by
  unfold Resolves lookup
  cases cached : store.cache.get hash with
  | some scope => simp
  | none =>
    constructor
    · rintro ⟨scope, found⟩
      obtain ⟨row, listed, -, -⟩ := getScope_eq_some found
      exact .inr (isPersistedScope_iff.mpr ⟨row, listed⟩)
    · rintro (absent | persisted)
      · exact absurd absent (by simp)
      · exact legible hash persisted

/-- A parent link is one of the cache or one of a row. -/
theorem ParentLink.cases {child parent : ScopeHash} (link : store.ParentLink child parent) :
    (∃ scope, store.cache.get child = some scope ∧ scope.parent = some parent) ∨
      store.db.Stores parent := by
  obtain ⟨scope, found, isParent⟩ := link
  unfold lookup at found
  cases cached : store.cache.get child with
  | some other =>
    rw [cached] at found
    obtain rfl := Option.some.inj (Except.ok.inj found)
    exact .inl ⟨other, rfl, isParent⟩
  | none =>
    rw [cached] at found
    obtain ⟨row, listed, -, same⟩ := getScope_eq_some found
    exact .inr (.inl ⟨child, row, listed, same.symm.trans isParent⟩)

/-- A cache may gain scopes whose parents resolve. -/
theorem Rooted.write (rooted : store.Rooted) (written : Written store.db after.db)
    (legible : store.db.Legible) (closed : after.db.ScopesClosed)
    (cached : ∀ hash scope, after.cache.get hash = some scope → store.cache.get hash = some scope ∨
      ∀ parent, scope.parent = some parent → store.Resolves parent)
    (kept : ∀ hash, (store.cache.get hash).isSome → (after.cache.get hash).isSome) : after.Rooted := by
  have legible' := written.legible legible
  have keeps (hash : ScopeHash) (resolves : store.Resolves hash) : after.Resolves hash := by
    rw [resolves_iff legible']
    exact ((resolves_iff legible).mp resolves).imp (kept hash) (written.kept hash)
  intro child parent link
  rcases link.cases with ⟨scope, found, isParent⟩ | stored
  · rcases cached child scope found with old | inserted
    · refine keeps parent (rooted child parent ⟨scope, ?_, isParent⟩)
      rw [lookup, old]
    · exact keeps parent (inserted parent isParent)
  · exact (resolves_iff legible').mpr (.inr (closed parent stored))

theorem Filled.rooted (filled : Filled store after) (rooted : store.Rooted) : after.Rooted := by
  rintro child parent ⟨scope, found, isParent⟩
  rw [filled.lookup] at found
  exact filled.resolves.mpr (rooted child parent ⟨scope, found, isParent⟩)

theorem Filled.hashed (filled : Filled store after) (hashed : store.Hashed) : after.Hashed := by
  intro hash scope found
  rcases filled.cached hash with same | ⟨-, other, decoded, inserted⟩
  · exact hashed hash scope (same ▸ found)
  · obtain rfl : other = scope := Option.some.inj (inserted.symm.trans found)
    obtain ⟨-, -, same, -⟩ := getScope_eq_some decoded
    exact same

theorem Hashed.insert (hashed : store.Hashed) (scope : Scope) : (store.insert scope).2.Hashed := by
  intro hash other found
  dsimp only [ScopeStore.insert] at found
  rw [Table.get_insert] at found
  split_ifs at found with isHash
  · obtain rfl := Option.some.inj found
    exact isHash.symm
  · exact hashed hash other found

theorem Rooted.insert (rooted : store.Rooted) (legible : store.db.Legible) (closed : store.db.ScopesClosed)
    (scope : Scope) (anchored : ∀ parent, scope.parent = some parent → store.Resolves parent) :
    (store.insert scope).2.Rooted := by
  have written := insertScope_written store.db scope
  refine rooted.write written legible (written.closed closed) ?_ ?_
  · intro hash other found
    dsimp only [ScopeStore.insert] at found
    rw [Table.get_insert] at found
    split_ifs at found
    · obtain rfl := Option.some.inj found
      exact .inr anchored
    · exact .inl found
  · intro hash cached
    dsimp only [ScopeStore.insert]
    rw [Table.get_insert]
    split_ifs
    · rfl
    · exact cached

/-- What a step does to the database only. -/
theorem Rooted.rows (rooted : store.Rooted) (legible : store.db.Legible) (closed : store.db.ScopesClosed)
    (written : Written store.db after.db) (same : after.cache = store.cache) : after.Rooted := by
  refine rooted.write written legible (written.closed closed) ?_ ?_
  · intro hash scope found
    exact .inl (same ▸ found)
  · intro hash cached
    rwa [same]

/-- A start has one scope in its cache, and it has no parent. -/
theorem rooted_start (environment : EnvSnapshot) (legible : db.Legible) (closed : db.ScopesClosed) :
    (start computeHash db environment).Rooted := by
  have written := insertScope_written db (Scope.root computeHash environment)
  intro child parent link
  rcases link.cases with ⟨scope, found, isParent⟩ | stored
  · dsimp only [start, ScopeStore.insert] at found
    rw [Table.get_insert] at found
    split_ifs at found
    · obtain rfl := Option.some.inj found
      exact absurd isParent (by simp [Scope.root])
    · exact absurd found (by simp [Table.empty])
  · refine (resolves_iff ?_).mpr (.inr (written.closed closed parent stored))
    exact written.legible legible

theorem hashed_start (environment : EnvSnapshot) : (start computeHash db environment).Hashed := by
  have empty : (⟨.empty, db⟩ : ScopeStore).Hashed := by
    intro hash scope found
    exact absurd found (by simp [Table.empty])
  exact empty.insert _

end Rooted

section Steps

/-- The scope that a derivation inserts is a child of its base. -/
theorem derive_cases (store : ScopeStore) (hashed : store.Hashed) (base : ScopeHash) (delta : EnvDelta) :
    Filled store (store.derive computeHash base delta).2 ∨
      ∃ filled child, Filled store filled ∧ (store.derive computeHash base delta).2 = (filled.insert child).2 ∧
        child.parent = some base ∧ store.Resolves base := by
  have filled := loadScope_filled store base
  have answer := loadScope_fst store base
  unfold ScopeStore.derive deriveScope
  cases loaded : store.loadScope base with
  | mk result after =>
    rw [loaded] at filled answer
    dsimp only at filled answer
    cases result with
    | error error => exact .inl filled
    | ok found =>
      cases found with
      | none => exact .inl filled
      | some parent =>
        dsimp only
        cases parent.snapshot with
        | none => exact .inl filled
        | some snapshot =>
          have isBase : parent.hash = base := by
            unfold lookup at answer
            cases cached : store.cache.get base with
            | some other =>
              rw [cached] at answer
              obtain rfl := Option.some.inj (Except.ok.inj answer)
              exact hashed base parent cached
            | none =>
              rw [cached] at answer
              obtain ⟨-, -, same, -⟩ := getScope_eq_some answer.symm
              exact same
          refine .inr ⟨after, _, filled, rfl, ?_, parent, answer.symm⟩
          rw [Scope.fork, isBase]

/-- Listing the scopes replaces cached scopes by their rows. -/
theorem listScopes_cases (db : Database) (order : List ScopeHash) {cache result : Table ScopeHash Scope}
    (listed : listScopes ⟨cache, db⟩ order = .ok result) (hash : ScopeHash) :
    result.get hash = cache.get hash ∨
      ∃ scope, db.getScope hash = .ok (some scope) ∧ result.get hash = some scope := by
  unfold listScopes at listed
  dsimp only at listed
  induction order generalizing cache with
  | nil =>
    obtain rfl : cache = result := Except.ok.inj listed
    exact .inl rfl
  | cons first rest ih =>
    rw [List.foldlM_cons] at listed
    cases read : db.getScope first with
    | error error => simp [read, bind, Except.bind] at listed
    | ok found =>
      cases found with
      | none =>
        simp only [read, bind, Except.bind] at listed
        exact ih listed
      | some scope =>
        simp only [read, bind, Except.bind] at listed
        rcases ih listed with same | replaced
        · obtain ⟨-, -, isHash, -⟩ := getScope_eq_some read
          rw [Table.get_insert, isHash] at same
          split_ifs at same with isFirst
          · exact .inr ⟨scope, isFirst ▸ read, same⟩
          · exact .inl same
        · exact .inr replaced

/-- An inserted scope is a root, or its parent is there. -/
def Anchors (store : ScopeStore) : ScopeOp → Prop
  | .insert scope => ∀ parent, scope.parent = some parent → store.Resolves parent
  | _ => True

/-- Garbage collection meets no live scope that has another parent in its row. -/
def SweepAgrees (store : ScopeStore) : ScopeOp → Prop
  | .garbageCollect roots => store.AgreesOnLive roots
  | _ => True

/-- What every step keeps if garbage collection meets no such scope. -/
structure Kept (store : ScopeStore) : Prop where
  closed : store.db.ScopesClosed
  legible : store.db.Legible
  hashed : store.Hashed

theorem Kept.listScopes {order : List ScopeHash} {cache : Table ScopeHash Scope} (kept : store.Kept)
    (listed : store.listScopes order = .ok cache) : Hashed { store with cache } := by
  intro hash scope found
  rcases listScopes_cases store.db order listed hash with same | ⟨other, decoded, replaced⟩
  · exact kept.hashed hash scope (same ▸ found)
  · obtain rfl : other = scope := Option.some.inj (replaced.symm.trans found)
    obtain ⟨-, -, same, -⟩ := getScope_eq_some decoded
    exact same

theorem withDb_cache (store : ScopeStore) (result : Except StorageError Database) :
    (store.withDb result).cache = store.cache := by
  cases result <;> rfl

theorem Hashed.step (kept : store.Kept) (op : ScopeOp) : (store.step computeHash op).Hashed := by
  cases op with
  | insert scope => exact kept.hashed.insert scope
  | derive base delta =>
    rcases derive_cases store kept.hashed base delta with filled | ⟨filled, child, isFilled, same, -⟩
    · exact filled.hashed kept.hashed
    · dsimp only [ScopeStore.step]
      rw [same]
      exact (isFilled.hashed kept.hashed).insert child
  | getScope hash => exact (loadScope_filled store hash).hashed kept.hashed
  | listScopes order =>
    dsimp only [ScopeStore.step]
    cases listed : store.listScopes order with
    | error error => exact kept.hashed
    | ok cache => exact kept.listScopes listed
  | garbageCollect roots =>
    rcases @step_garbageCollect computeHash store roots with filled | ⟨reachable, -, swept⟩
    · exact filled.hashed kept.hashed
    · obtain ⟨filled, isFilled, cached⟩ := swept.cached
      intro hash scope found
      rw [cached] at found
      split_ifs at found
      exact isFilled.hashed kept.hashed hash scope found
  | upsertSession session =>
    intro hash scope found
    exact kept.hashed hash scope (withDb_cache store _ ▸ found)
  | upsertJobHistory job =>
    intro hash scope found
    exact kept.hashed hash scope (withDb_cache store _ ▸ found)
  | upsertCron id cron =>
    intro hash scope found
    exact kept.hashed hash scope (withDb_cache store _ ▸ found)
  | deleteCron id => exact kept.hashed
  | pruneJobHistory removed => exact kept.hashed
  | restart environment => exact hashed_start environment

theorem Kept.step (kept : store.Kept) (op : ScopeOp) (agrees : store.SweepAgrees op) :
    (store.step computeHash op).Kept := by
  have hashed : (store.step computeHash op).Hashed := .step kept op
  by_cases plain : NoSweep op
  · have written : Written store.db (store.step computeHash op).db := step_written store plain
    exact ⟨written.closed kept.closed, written.legible kept.legible, hashed⟩
  · cases op with
    | garbageCollect roots =>
      rcases @step_garbageCollect computeHash store roots with filled | ⟨reachable, done, swept⟩
      · refine ⟨?_, ?_, hashed⟩
        · rw [filled.db]
          exact kept.closed
        · rw [filled.db]
          exact kept.legible
      · exact ⟨swept.closed done kept.closed kept.legible agrees, swept.legible kept.legible, hashed⟩
    | _ => exact absurd trivial plain

theorem Rooted.step (kept : store.Kept) (rooted : store.Rooted) (op : ScopeOp) (anchors : store.Anchors op) :
    (store.step computeHash op).Rooted := by
  have insertInto (other : ScopeStore) (filled : Filled store other) (scope : Scope)
      (anchored : ∀ parent, scope.parent = some parent → store.Resolves parent) :
      (other.insert scope).2.Rooted := by
    refine (filled.rooted rooted).insert ?_ ?_ scope fun parent link => ?_
    · rw [filled.db]
      exact kept.legible
    · rw [filled.db]
      exact kept.closed
    · exact filled.resolves.mpr (anchored parent link)
  have rows (plain : NoSweep op) (same : (store.step computeHash op).cache = store.cache) :
      (store.step computeHash op).Rooted :=
    rooted.rows kept.legible kept.closed (step_written store plain) same
  cases op with
  | insert scope => exact insertInto store (.refl store) scope anchors
  | derive base delta =>
    rcases derive_cases store kept.hashed base delta with filled | ⟨filled, child, isFilled, same, isChild, found⟩
    · exact filled.rooted rooted
    · dsimp only [ScopeStore.step]
      rw [same]
      refine insertInto filled isFilled child fun parent link => ?_
      obtain rfl : base = parent := Option.some.inj (isChild.symm.trans link)
      exact found
  | getScope hash => exact (loadScope_filled store hash).rooted rooted
  | listScopes order =>
    dsimp only [ScopeStore.step]
    cases listed : store.listScopes order with
    | error error => exact rooted
    | ok cache =>
      have cases' := listScopes_cases store.db order listed
      refine rooted.write (.refl store.db) kept.legible kept.closed ?_ ?_
      · intro hash scope found
        rcases cases' hash with same | ⟨other, decoded, replaced⟩
        · exact .inl (same ▸ found)
        · right
          intro parent isParent
          obtain rfl : other = scope := Option.some.inj (replaced.symm.trans found)
          obtain ⟨row, present, -, link⟩ := getScope_eq_some decoded
          refine (resolves_iff kept.legible).mpr (.inr (kept.closed parent (.inl ?_)))
          exact ⟨hash, row, present, link.symm.trans isParent⟩
      · intro hash cached
        rcases cases' hash with same | ⟨other, -, replaced⟩
        · exact same ▸ cached
        · exact replaced ▸ rfl
  | garbageCollect roots =>
    rcases @step_garbageCollect computeHash store roots with filled | ⟨reachable, done, swept⟩
    · exact filled.rooted rooted
    · have member (hash : ScopeHash) : hash ∈ reachable ↔ store.Live roots hash :=
        (mark_iff done hash).trans (reaches_iff store roots)
      rintro child parent ⟨scope, found, isParent⟩
      by_cases kept : child ∈ reachable
      · rw [swept.lookup_kept kept] at found
        obtain ⟨root, inside, path⟩ := (member child).mp kept
        have live : store.Live roots parent := ⟨root, inside, path.tail ⟨scope, found, isParent⟩⟩
        rw [Resolves, swept.lookup_kept ((member parent).mpr live)]
        exact mark_resolves done live
      · rw [swept.lookup_removed kept] at found
        exact absurd found (by simp)
  | upsertSession session => exact rows trivial (withDb_cache store _)
  | upsertJobHistory job => exact rows trivial (withDb_cache store _)
  | upsertCron id cron => exact rows trivial (withDb_cache store _)
  | deleteCron id => exact rows trivial rfl
  | pruneJobHistory removed => exact rows trivial rfl
  | restart environment => exact rooted_start environment kept.legible kept.closed

end Steps

section Runs

/-- Garbage collection does not fail because a scope is missing, unless a root is. -/
def NeverMissing (store : ScopeStore) : Prop :=
  ∀ roots, (∀ root ∈ roots, store.Resolves root) → ∃ result after,
    store.garbageCollect (store.gcRounds roots) roots = some (result, after) ∧
    ∀ hash, result ≠ .error (.missing hash)

theorem Rooted.live (rooted : store.Rooted) {roots : List ScopeHash}
    (resolve : ∀ root ∈ roots, store.Resolves root) (live : store.Live roots hash) : store.Resolves hash := by
  obtain ⟨root, member, path⟩ := live
  induction path with
  | refl => exact resolve root member
  | tail _ link _ => exact rooted _ _ link

theorem Rooted.neverMissing (rooted : store.Rooted) : store.NeverMissing := by
  intro roots resolve
  obtain ⟨result, after, ended, failed | ⟨⟨report, rfl⟩, -⟩⟩ := garbageCollect_result store roots
  · obtain ⟨error, rfl, -, ⟨hash, live, missing⟩ | ⟨⟨fault, rfl⟩, -⟩⟩ := failed
    · exact absurd (rooted.live resolve live) missing
    · exact ⟨_, after, ended, by simp⟩
  · exact ⟨_, after, ended, by simp⟩

/-- What a restart finds: every stored scope is persisted and resolves, and garbage collection misses
no ancestor. -/
structure Durable (computeHash : EnvSnapshot → ScopeHash) (store : ScopeStore) : Prop where
  closed : ∀ hash, store.db.Stores hash → store.db.isPersistedScope hash = true
  restored : ∀ environment hash, store.db.Stores hash →
    (start computeHash store.db environment).Resolves hash
  collects : ∀ environment, (start computeHash store.db environment).NeverMissing

theorem Kept.durable (kept : store.Kept) : store.Durable computeHash where
  closed := kept.closed
  restored environment hash stored := by
    have written := insertScope_written store.db (Scope.root computeHash environment)
    refine (resolves_iff ?_).mpr (.inr (written.kept hash (kept.closed hash stored)))
    exact written.legible kept.legible
  collects environment := (rooted_start environment kept.legible kept.closed).neverMissing

/-- Every step of a run meets a condition on the store before it. -/
def Along (computeHash : EnvSnapshot → ScopeHash) (condition : ScopeStore → ScopeOp → Prop)
    (store : ScopeStore) (ops : List ScopeOp) : Prop :=
  ∀ before op after, ops = before ++ op :: after → condition (run computeHash store before) op

/-- What every step keeps holds after the run. -/
theorem run_invariant (invariant : ScopeStore → Prop) (condition : ScopeStore → ScopeOp → Prop)
    (kept : ∀ store op, invariant store → condition store op → invariant (store.step computeHash op))
    (begins : invariant store) {ops : List ScopeOp} (along : store.Along computeHash condition ops) :
    invariant (run computeHash store ops) := by
  induction ops using List.reverseRecOn with
  | nil => exact begins
  | append_singleton ops op ih =>
    have earlier := ih fun before op' after split =>
      along before op' (after ++ [op]) (by rw [split, List.append_assoc, List.cons_append])
    rw [run, List.foldl_append]
    exact kept _ op earlier (along ops op [] rfl)

theorem along_nil {condition : ScopeStore → ScopeOp → Prop} : store.Along computeHash condition [] := by
  intro before op after split
  exact absurd split (by simp)

theorem along_cons {condition : ScopeStore → ScopeOp → Prop} {op : ScopeOp} {ops : List ScopeOp} :
    store.Along computeHash condition (op :: ops) ↔
      condition store op ∧ (store.step computeHash op).Along computeHash condition ops := by
  constructor
  · intro along
    refine ⟨along [] op ops rfl, fun before next after split => ?_⟩
    exact along (op :: before) next after (by rw [split, List.cons_append])
  · rintro ⟨first, later⟩ before next after split
    cases before with
    | nil =>
      obtain ⟨rfl, rfl⟩ := List.cons.inj split
      exact first
    | cons other before =>
      obtain ⟨rfl, rest⟩ := List.cons.inj split
      exact later before next after rest

theorem kept_start (environment : EnvSnapshot) : (start computeHash .empty environment).Kept := by
  have written := insertScope_written .empty (Scope.root computeHash environment)
  exact ⟨written.closed scopesClosed_empty, written.legible legible_empty, hashed_start environment⟩

/-- In every state of a run in which garbage collection meets no live scope that has another parent in
its row, every stored scope is persisted, and a restart finds it with its ancestors. If inserted scopes
have parents that are there, garbage collection misses none, however long after a restart. -/
theorem run_durable (computeHash : EnvSnapshot → ScopeHash) (environment : EnvSnapshot) (ops : List ScopeOp)
    (agrees : (start computeHash .empty environment).Along computeHash SweepAgrees ops) :
    (run computeHash (start computeHash .empty environment) ops).Durable computeHash ∧
    ((start computeHash .empty environment).Along computeHash Anchors ops →
      (run computeHash (start computeHash .empty environment) ops).NeverMissing) := by
  constructor
  · exact (run_invariant Kept SweepAgrees (fun _ op kept => kept.step op) (kept_start environment) agrees).durable
  · intro anchors
    have both := run_invariant (fun store => store.Kept ∧ store.Rooted)
      (fun store op => store.SweepAgrees op ∧ store.Anchors op)
      (fun _ op invariant condition => ⟨invariant.1.step op condition.1, .step invariant.1 invariant.2 op condition.2⟩)
      ⟨kept_start environment, rooted_start environment legible_empty scopesClosed_empty⟩
      (fun before op after split => ⟨agrees before op after split, anchors before op after split⟩)
    exact both.2.neverMissing

/-- A session enters `/tmp` from `/`, and what is then collected is restored. -/
theorem run_durable_plain :
    let ops : List ScopeOp := [.derive (cwdHash ⟨[], "/"⟩) ⟨[], [], some "/tmp"⟩,
      .garbageCollect [cwdHash ⟨[], "/tmp"⟩], .restart ⟨[], "/home"⟩]
    (run cwdHash (start cwdHash .empty ⟨[], "/"⟩) ops).Durable cwdHash ∧
      (run cwdHash (start cwdHash .empty ⟨[], "/"⟩) ops).NeverMissing := by
  intro ops
  have agrees : (start cwdHash .empty ⟨[], "/"⟩).Along cwdHash SweepAgrees ops := by
    rw [along_cons, along_cons, along_cons]
    exact ⟨trivial, agreesOnLive_of_keys (by decide), trivial, along_nil⟩
  have anchors : (start cwdHash .empty ⟨[], "/"⟩).Along cwdHash Anchors ops := by
    rw [along_cons, along_cons, along_cons]
    exact ⟨trivial, trivial, trivial, along_nil⟩
  have both := run_durable cwdHash ⟨[], "/"⟩ ops agrees
  exact ⟨both.1, both.2 anchors⟩

/-- Two sessions enter `/tmp`, one from `/` and one from `/c`, and only the second one is left: the row
of `/tmp` has the first parent, and that is deleted. -/
def twoParents : ScopeStore :=
  run cwdHash (start cwdHash .empty ⟨[], "/"⟩) [
    .derive (cwdHash ⟨[], "/"⟩) ⟨[], [], some "/tmp"⟩,
    .insert (Scope.root cwdHash ⟨[], "/c"⟩),
    .derive (cwdHash ⟨[], "/c"⟩) ⟨[], [], some "/tmp"⟩,
    .garbageCollect [cwdHash ⟨[], "/tmp"⟩]]

/-- Garbage collection after the next restart fails. -/
theorem run_loses_parent :
    twoParents.db.Stores (cwdHash ⟨[], "/"⟩) ∧
    twoParents.db.isPersistedScope (cwdHash ⟨[], "/"⟩) = false ∧
    (start cwdHash twoParents.db ⟨[], "/home"⟩).Resolves (cwdHash ⟨[], "/tmp"⟩) ∧
    ((start cwdHash twoParents.db ⟨[], "/home"⟩).garbageCollect
        ((start cwdHash twoParents.db ⟨[], "/home"⟩).gcRounds [cwdHash ⟨[], "/tmp"⟩])
        [cwdHash ⟨[], "/tmp"⟩]).map Prod.fst = some (.error (.missing (cwdHash ⟨[], "/"⟩))) := by
  refine ⟨.inl ⟨cwdHash ⟨[], "/tmp"⟩, ?_⟩, ?_, ?_, ?_⟩
  · exact ⟨_, rfl, rfl⟩
  · decide
  · exact ⟨_, rfl⟩
  · decide

end Runs

end ScopeStore

end CueShell
