import CueShell.Model.Storage

/-! # The scope store

The actor that owns the scopes: a cache in front of the database. An inserted or derived scope
replaces a cached one with the same hash, while the database keeps the row it has. Volatile scopes
are in the cache only, so a restart forgets them. Garbage collection marks through the cache first and
then deletes from both. A hash map is walked in any order, so roots are a list in any order.
-/

namespace CueShell

inductive ScopeError where
  | storage (error : StorageError)
  /-- A root or an ancestor that garbage collection does not find. -/
  | missing (hash : ScopeHash)
  | notFound (base : ScopeHash)
  | noSnapshot (hash : ScopeHash)
deriving DecidableEq, Repr

structure ScopeGcReport where
  retained : ℕ
  removedCached : ℕ
  removedPersisted : ℕ
deriving DecidableEq, Repr

structure ScopeStore where
  cache : Table ScopeHash Scope
  db : Database

namespace ScopeStore

variable (store : ScopeStore)

/-- What a lookup of a hash is answered. -/
def lookup (hash : ScopeHash) : Except StorageError (Option Scope) :=
  match store.cache.get hash with
  | some scope => .ok (some scope)
  | none => store.db.getScope hash

/-- A scope found in the database is put into the cache. -/
def loadScope (hash : ScopeHash) : Except StorageError (Option Scope) × ScopeStore :=
  match store.cache.get hash with
  | some scope => (.ok (some scope), store)
  | none =>
      match store.db.getScope hash with
      | .ok (some scope) =>
          (.ok (some scope), { store with cache := store.cache.insert scope.hash scope })
      | answer => (answer, store)

/-- Store a scope in the database, if it may be, and in the cache. -/
def insert (scope : Scope) : ScopePersistence × ScopeStore :=
  let (persistence, db) := store.db.insertScope scope
  (persistence, { cache := store.cache.insert scope.hash scope, db })

section Collect

/-- The mark loop: roots and their ancestors, the next to visit in front. -/
def markReachable : ℕ → ScopeStore → Finset ScopeHash → List ScopeHash →
    Option (Except ScopeError (Finset ScopeHash) × ScopeStore)
  | 0, _, _, _ => none
  | _ + 1, store, reachable, [] => some (.ok reachable, store)
  | rounds + 1, store, reachable, hash :: pending =>
      if hash ∈ reachable then markReachable rounds store reachable pending
      else
        match store.loadScope hash with
        | (.error error, store) => some (.error (.storage error), store)
        | (.ok none, store) => some (.error (.missing hash), store)
        | (.ok (some scope), store) =>
            markReachable rounds store (Insert.insert hash reachable) (scope.parent.toList ++ pending)

/-- The value `none` stands for a mark loop that does not end within the given rounds. -/
def garbageCollect (rounds : ℕ) (roots : List ScopeHash) :
    Option (Except ScopeError ScopeGcReport × ScopeStore) :=
  match markReachable rounds store ∅ roots with
  | none => none
  | some (.error error, store) => some (.error error, store)
  | some (.ok reachable, store) =>
      match store.db.sweepScopes reachable with
      | .error error => some (.error (.storage error), store)
      | .ok (removedPersisted, db) =>
          let cache := store.cache.retain fun hash _ => hash ∈ reachable
          some (.ok ⟨reachable.card, store.cache.size - cache.size, removedPersisted⟩, ⟨cache, db⟩)

/-- As many rounds as there are roots and scopes, and one more. -/
def gcRounds (roots : List ScopeHash) : ℕ :=
  roots.length + (store.cache.keys ∪ store.db.scopes.keys).card + 1

end Collect

section Messages

variable (computeHash : EnvSnapshot → ScopeHash)

/-- The child of a scope, or why there is none. -/
def deriveScope (base : ScopeHash) (delta : EnvDelta) : Except ScopeError Scope × ScopeStore :=
  match store.loadScope base with
  | (.error error, store) => (.error (.storage error), store)
  | (.ok none, store) => (.error (.notFound base), store)
  | (.ok (some parent), store) =>
      match parent.snapshot with
      | none => (.error (.noSnapshot parent.hash), store)
      | some snapshot => (.ok (Scope.fork computeHash parent.hash snapshot delta), store)

def derive (base : ScopeHash) (delta : EnvDelta) : Except ScopeError ScopeHash × ScopeStore :=
  match store.deriveScope computeHash base delta with
  | (.error error, store) => (.error error, store)
  | (.ok child, store) => (.ok child.hash, (store.insert child).2)

/-- Read every row into the cache. -/
def listScopes (order : List ScopeHash) : Except StorageError (Table ScopeHash Scope) :=
  order.foldlM (fun cache hash =>
    match store.db.getScope hash with
    | .error error => .error error
    | .ok none => .ok cache
    | .ok (some scope) => .ok (cache.insert scope.hash scope)) store.cache

/-- A start of the daemon: an empty cache, then the root scope of the daemon's own environment. -/
def start (db : Database) (environment : EnvSnapshot) : ScopeStore :=
  ((⟨.empty, db⟩ : ScopeStore).insert (Scope.root computeHash environment)).2

end Messages

end ScopeStore

/-- What happens to the store and to the rows that name scopes. -/
inductive ScopeOp where
  | insert (scope : Scope)
  | derive (base : ScopeHash) (delta : EnvDelta)
  | getScope (hash : ScopeHash)
  | listScopes (order : List ScopeHash)
  | garbageCollect (roots : List ScopeHash)
  | upsertSession (session : StoredSession)
  | upsertJobHistory (job : StoredJob)
  | upsertCron (id : String) (cron : StoredCron)
  | deleteCron (id : String)
  | pruneJobHistory (removed : List String)
  /-- The daemon is started again, in the given environment. -/
  | restart (environment : EnvSnapshot)

namespace ScopeStore

/-- A statement that fails leaves the database as it is. -/
def withDb (store : ScopeStore) (result : Except StorageError Database) : ScopeStore :=
  match result with
  | .ok db => { store with db }
  | .error _ => store

def step (computeHash : EnvSnapshot → ScopeHash) (store : ScopeStore) : ScopeOp → ScopeStore
  | .insert scope => (store.insert scope).2
  | .derive base delta => (store.derive computeHash base delta).2
  | .getScope hash => (store.loadScope hash).2
  | .listScopes order =>
      match store.listScopes order with
      | .ok cache => { store with cache }
      | .error _ => store
  | .garbageCollect roots =>
      match store.garbageCollect (store.gcRounds roots) roots with
      | some (_, store) => store
      | none => store
  | .upsertSession session => store.withDb ((store.db.upsertSession session).map Prod.snd)
  | .upsertJobHistory job => store.withDb (store.db.upsertJobHistory job)
  | .upsertCron id cron => store.withDb (store.db.upsertCron id cron)
  | .deleteCron id => { store with db := store.db.deleteCron id }
  | .pruneJobHistory removed => { store with db := store.db.pruneJobHistory removed }
  | .restart environment => start computeHash store.db environment

def run (computeHash : EnvSnapshot → ScopeHash) (store : ScopeStore) (ops : List ScopeOp) : ScopeStore :=
  ops.foldl (step computeHash) store

end ScopeStore

/-- A scope is created from the environment of a client, or from another scope. -/
inductive Creation where
  | root (environment : EnvSnapshot)
  | derive (base : ScopeHash) (delta : EnvDelta)

def Creation.op (computeHash : EnvSnapshot → ScopeHash) : Creation → ScopeOp
  | .root environment => .insert (Scope.root computeHash environment)
  | .derive base delta => .derive base delta

/-- The live scopes that the state of the scheduler names; the store finds their ancestors. -/
def scopeGcRoots (state : SchedulerState) : Finset ScopeHash :=
  state.sessions.sessions.collect (fun session => {session.scope}) ∪
    state.chains.collect (fun chain => {chain.scopeHash}) ∪
    state.jobs.collect (fun job => job.startScope.toFinset ∪ job.endScope.toFinset) ∪
    state.crons.collect (fun cron => {cron.scopeHash}) ∪
    state.pendingScripts.collect (fun script => {script.itemScope}) ∪
    state.completedChains.collect (fun chain => chain.endScope.toFinset) ∪
    state.pendingResource.collect (fun pending => {pending.baseScope})

end CueShell
