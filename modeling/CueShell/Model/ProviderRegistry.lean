import CueShell.Model.Resource
import Mathlib.Data.List.Sort
import Mathlib.Data.String.Basic

/-! # The provider registry

Providers are plug-ins over a state of their own; the registry routes the needs of a job to those that
own the keys, in the order of their ids, and remembers what they granted. A registry whose providers
share an id or a key cannot be built.
-/

namespace CueShell

structure Provider (σ : Type) where
  id : String
  keys : List String
  reserve : ReserveRequest → σ → Except Reject Reservation × σ
  release : String → σ → σ

/-- A rejection with the provider it comes from. -/
structure RejectGroup where
  providerId : String
  reject : Reject
deriving DecidableEq, Repr

structure TrackedGrant where
  providerId : String
  grant : Grant
deriving DecidableEq, Repr

inductive RegistryError where
  | duplicateId (id : String)
  | keyClaimedTwice (key first second : String)
deriving DecidableEq, Repr

structure ProviderRegistry (σ : Type) where
  providers : List (Provider σ)
  /-- Ordered by id, each id once. -/
  sorted : (providers.map Provider.id).Pairwise (· < ·)
  /-- Each key has one owner. -/
  owned : (providers.flatMap Provider.keys).Nodup

/-- The first entry that repeats an earlier one, with both of them. -/
def firstRepeated {α : Type} (name : α → String) : List α → List α → Option (α × α)
  | _, [] => none
  | seen, head :: rest =>
      match seen.find? fun earlier => name earlier == name head with
      | some earlier => some (earlier, head)
      | none => firstRepeated name (seen ++ [head]) rest

/-- The states of all providers, by id. -/
abbrev ProviderStates (σ : Type) := String → σ

structure RegistryState (σ : Type) where
  providers : ProviderStates σ
  reservations : Table JobId (List TrackedGrant)

namespace ProviderRegistry

variable {σ : Type}

def fromProviders (providers : List (Provider σ)) : Except RegistryError (ProviderRegistry σ) :=
  let sorted := providers.insertionSort fun first second => first.id ≤ second.id
  if ids : (sorted.map Provider.id).Pairwise (· < ·) then
    if keys : (sorted.flatMap Provider.keys).Nodup then .ok ⟨sorted, ids, keys⟩
    else
      match firstRepeated Prod.fst [] (sorted.flatMap fun p => p.keys.map (·, p.id)) with
      | some ((key, first), (_, second)) => .error (.keyClaimedTwice key first second)
      | none => .error (.keyClaimedTwice "" "" "")
  else
    match firstRepeated id [] (sorted.map Provider.id) with
    | some (id, _) => .error (.duplicateId id)
    | none => .error (.duplicateId "")

variable (registry : ProviderRegistry σ)

def byId (id : String) : Option (Provider σ) := registry.providers.find? fun p => p.id == id

def providerForKey (key : String) : Option String :=
  (registry.providers.find? fun p => p.keys.contains key).map Provider.id

/-- The keys of a need that a provider owns. -/
def ownedKeys (provider : Provider σ) (need : Need) : List String :=
  (need.map Prod.fst).filter fun key => provider.keys.contains key

/-- The providers that own a key of the need, in the order of their ids. -/
def byProvider (need : Need) : List (Provider σ) :=
  registry.providers.filter fun provider => ownedKeys provider need ≠ []

/-- Give one grant back to its provider. -/
def releaseGrant (states : ProviderStates σ) (tracked : TrackedGrant) : ProviderStates σ :=
  match registry.byId tracked.providerId with
  | none => states
  | some provider =>
      Function.update states tracked.providerId
        (provider.release tracked.grant.id (states tracked.providerId))

/-- Ask one provider after the other; a rejection rolls back what was acquired, last grant first. -/
def reserveEach (jobId : JobId) (need : Need) :
    List (Provider σ) → List TrackedGrant → ProviderStates σ →
      Except RejectGroup (List TrackedGrant) × ProviderStates σ
  | [], acquired, states => (.ok acquired, states)
  | provider :: rest, acquired, states =>
      let request : ReserveRequest := ⟨jobId, need.select (ownedKeys provider need)⟩
      match provider.reserve request (states provider.id) with
      | (.ok grant, after) =>
          reserveEach jobId need rest (acquired ++ [⟨provider.id, grant⟩])
            (Function.update states provider.id after)
      | (.error reject, after) =>
          (.error ⟨provider.id, reject⟩,
            acquired.reverse.foldl registry.releaseGrant (Function.update states provider.id after))

def unknownKeys (need : Need) : List String :=
  (need.map Prod.fst).filter fun key => (registry.providerForKey key).isNone

def tryReserve (jobId : JobId) (need : Need) (state : RegistryState σ) :
    Except RejectGroup (List Grant) × RegistryState σ :=
  if need = [] then (.ok [], state)
  else
    match registry.unknownKeys need with
    | key :: rest =>
        let reject : Reject :=
          { reason := "unknown resource key: " ++ ", ".intercalate (key :: rest)
            key := some key
            needed := need.get key }
        (.error ⟨"core", reject⟩, state)
    | [] =>
        match registry.reserveEach jobId need (registry.byProvider need) [] state.providers with
        | (.error reject, providers) => (.error reject, { state with providers := providers })
        | (.ok acquired, providers) =>
            let tracked := (state.reservations.get jobId).getD [] ++ acquired
            (.ok (acquired.map TrackedGrant.grant),
              ⟨providers, state.reservations.insert jobId tracked⟩)

/-- Release everything a job holds; the number of grants is returned. -/
def release (jobId : JobId) (state : RegistryState σ) : ℕ × RegistryState σ :=
  let tracked := (state.reservations.get jobId).getD []
  (tracked.length, ⟨tracked.foldl registry.releaseGrant state.providers,
    state.reservations.erase jobId⟩)

end ProviderRegistry

inductive RegistryCall where
  | tryReserve (jobId : JobId) (need : Need)
  | release (jobId : JobId)
deriving DecidableEq, Repr

namespace ProviderRegistry

variable {σ : Type} (registry : ProviderRegistry σ)

def call (state : RegistryState σ) : RegistryCall → RegistryState σ
  | .tryReserve jobId need => (registry.tryReserve jobId need state).2
  | .release jobId => (registry.release jobId state).2

/-- The state after a sequence of calls on a new registry. -/
def run (start : ProviderStates σ) (calls : List RegistryCall) : RegistryState σ :=
  calls.foldl registry.call ⟨start, .empty⟩

end ProviderRegistry

end CueShell
