import CueShell.Proofs.LedgerSteps

/-! # Invariants of the operation ledger

The request maps hold what the log says, the request index agrees with the lists of waiters, the
counters agree with the entries, and every pending operation has one owner. The last one needs
request ids that are not reused while they are outstanding.
-/

namespace CueShell

variable {Ok : Type} {env : LedgerEnv Ok} {limits : LedgerLimits}
variable {log : List (LedgerEvent Ok)} {ledger before after : OperationLedger Ok}
variable {key : OperationKey} {waiter : OperationWaiter}
variable {sessionNamespace : Digest} {operationId : String} {fingerprint : Digest}
variable {outcome : BeginOutcome Ok}

theorem awaiting_append (event : LedgerEvent Ok) :
    awaiting env (log ++ [event]) waiter = event.awaited env waiter (awaiting env log waiter) := by
  simp [awaiting]

theorem routing_append (event : LedgerEvent Ok) :
    routing env (log ++ [event]) waiter = event.routed env waiter (routing env log waiter) := by
  simp [routing]

section Tracked

/-- The two request maps hold what the log says. -/
structure Tracked (env : LedgerEnv Ok) (log : List (LedgerEvent Ok)) (ledger : OperationLedger Ok) :
    Prop where
  pending : ∀ waiter, ledger.pendingRequests.get waiter = awaiting env log waiter
  routed : ∀ waiter, ledger.routedRequests.get waiter = routing env log waiter

theorem Tracked.released (tracked : Tracked env log before) (released : Released before after) :
    Tracked env log after where
  pending waiter := released.pending ▸ tracked.pending waiter
  routed waiter := released.routed ▸ tracked.routed waiter

theorem Tracked.began (tracked : Tracked env log before)
    (began : Began before (env.operationKey sessionNamespace operationId) fingerprint waiter outcome
      after) :
    Tracked env (log ++ [.began sessionNamespace operationId fingerprint waiter outcome]) after := by
  refine ⟨fun other => ?_, fun other => ?_⟩
  · rw [awaiting_append, ← tracked.pending]
    cases began with
    | rejected code message => simp [LedgerEvent.awaited, BeginOutcome.promises]
    | replayed held => simp [LedgerEvent.awaited, BeginOutcome.promises]
    | repeated same listed =>
      by_cases equal : waiter = other
      · simp [LedgerEvent.awaited, BeginOutcome.promises, ← equal, listed]
      · simp [LedgerEvent.awaited, equal]
    | joined fresh held =>
      simp [LedgerEvent.awaited, BeginOutcome.promises, Table.get_insert, eq_comm]
    | routed fresh absent room =>
      simp [LedgerEvent.awaited, BeginOutcome.promises, Table.get_insert, eq_comm]
  · rw [routing_append, ← tracked.routed]
    cases began with
    | rejected code message => simp [LedgerEvent.routed, BeginOutcome.routes]
    | replayed held => simp [LedgerEvent.routed, BeginOutcome.routes]
    | repeated same listed => simp [LedgerEvent.routed, BeginOutcome.routes]
    | joined fresh held => simp [LedgerEvent.routed, BeginOutcome.routes]
    | routed fresh absent room =>
      simp [LedgerEvent.routed, BeginOutcome.routes, Table.get_insert, eq_comm]

variable {routedRequest : OperationWaiter} {response : ResponsePayload Ok}
variable {result : Option (CompletedOperation Ok)} {found : Option OperationKey}

/-- Storing a response does not touch the request maps. -/
theorem store_requests (env : LedgerEnv Ok) (now : ℕ) (order : List OperationKey)
    (response : ResponsePayload Ok) (found : Option OperationKey) (ledger : OperationLedger Ok) :
    (store env now order response found ledger).pendingRequests = ledger.pendingRequests ∧
      (store env now order response found ledger).routedRequests = ledger.routedRequests := by
  cases found with
  | none => exact ⟨rfl, rfl⟩
  | some key =>
    obtain ⟨state, responses, bytes, -, released⟩ :=
      recordResponse_released env ledger now order key response
    exact ⟨released.pending, released.routed⟩

theorem Tracked.finished (tracked : Tracked env log before) {now : ℕ} {order : List OperationKey}
    (finished : Finished before routedRequest response result found after) :
    Tracked env (log ++ [.completed routedRequest response result])
      (store env now order response found after) := by
  obtain ⟨pending, routed⟩ := store_requests env now order response found after
  refine ⟨fun other => ?_, fun other => ?_⟩
  · rw [pending, awaiting_append, ← tracked.pending]
    cases finished with
    | unknown absent => rfl
    | settled owned closed => rfl
    | released owned held => simp [LedgerEvent.awaited, get_foldl_erase]
  · rw [routed, routing_append, ← tracked.routed]
    cases finished with
    | unknown absent =>
      by_cases equal : routedRequest = other
      · simp [LedgerEvent.routed, ← equal, absent]
      · simp [LedgerEvent.routed, equal]
    | settled owned closed => simp [LedgerEvent.routed, Table.get_erase, eq_comm]
    | released owned held => simp [LedgerEvent.routed, Table.get_erase, eq_comm]

theorem Tracked.disconnected (tracked : Tracked env log ledger) (clientId : UInt64) :
    Tracked env (log ++ [.disconnected clientId]) (ledger.removeWaitersForClient clientId) := by
  refine ⟨fun other => ?_, fun other => ?_⟩
  · rw [awaiting_append, ← tracked.pending]
    cases held : ledger.pendingRequests.get other <;>
      by_cases same : other.clientId = clientId <;>
      simp [LedgerEvent.awaited, OperationLedger.removeWaitersForClient, held, same, Option.filter]
  · rw [routing_append, ← tracked.routed]
    rfl

end Tracked

section Listed

variable {routedRequest : OperationWaiter} {response : ResponsePayload Ok}
variable {result : Option (CompletedOperation Ok)} {found : Option OperationKey}

/-- The waiters of a pending operation, nobody for any other. -/
def OperationLedger.Lists (ledger : OperationLedger Ok) (key : OperationKey)
    (waiters : List OperationWaiter) : Prop :=
  ∃ fingerprint, ledger.entries.get key = some ⟨fingerprint, .pending waiters⟩

/-- The request index maps a waiter to the pending entry that lists it. -/
structure Indexed (ledger : OperationLedger Ok) : Prop where
  index : ∀ waiter key, ledger.pendingRequests.get waiter = some key ↔
    ∃ waiters, ledger.Lists key waiters ∧ waiter ∈ waiters
  nodup : ∀ key waiters, ledger.Lists key waiters → waiters.Nodup

theorem lists_unique {first second : List OperationWaiter} (one : ledger.Lists key first)
    (two : ledger.Lists key second) : first = second := by
  obtain ⟨fingerprint, held⟩ := one
  obtain ⟨fingerprint', held'⟩ := two
  simp only [held, Option.some.injEq, OperationEntry.mk.injEq, OperationState.pending.injEq] at held'
  exact held'.2

theorem Released.lists_iff (released : Released before after) {waiters : List OperationWaiter} :
    after.Lists key waiters ↔ before.Lists key waiters :=
  exists_congr fun _ => released.pending_iff

theorem Indexed.released (indexed : Indexed before) (released : Released before after) :
    Indexed after where
  index waiter key := by
    rw [released.pending, indexed.index]
    exact exists_congr fun _ => and_congr_left' released.lists_iff.symm
  nodup key waiters lists := indexed.nodup key waiters (released.lists_iff.mp lists)

/-- A new waiter behind the ones an operation has, if any. -/
theorem Indexed.enlist (indexed : Indexed before) (waiters : List OperationWaiter)
    (fresh : before.pendingRequests.get waiter = none)
    (listed : ∀ other, before.pendingRequests.get other = some key ↔ other ∈ waiters)
    (nodup : waiters.Nodup)
    (pending : after.pendingRequests = before.pendingRequests.insert waiter key)
    (lists_iff : ∀ other others, after.Lists other others ↔
      (other = key ∧ others = waiters ++ [waiter]) ∨ (other ≠ key ∧ before.Lists other others)) :
    Indexed after := by
  have absent : waiter ∉ waiters := fun member => by simpa [fresh] using (listed waiter).mpr member
  refine ⟨fun other target => ?_, fun target others lists => ?_⟩
  · simp only [lists_iff, pending, Table.get_insert]
    by_cases same : other = waiter
    · subst same
      simp only [if_true, Option.some.injEq]
      constructor
      · rintro rfl
        exact ⟨waiters ++ [other], .inl ⟨rfl, rfl⟩, by simp⟩
      · rintro ⟨others, ⟨rfl, -⟩ | ⟨-, lists⟩, member⟩
        · rfl
        · simpa [fresh] using (indexed.index other target).mpr ⟨others, lists, member⟩
    · rw [if_neg same]
      by_cases equal : target = key
      · subst equal
        simp [listed, same]
      · simp [indexed.index, equal]
  · rcases (lists_iff target others).mp lists with ⟨rfl, rfl⟩ | ⟨-, lists⟩
    · simpa [List.nodup_append, nodup] using fun other member (equal : other = waiter) =>
        absent (equal ▸ member)
    · exact indexed.nodup target others lists

theorem Indexed.began (indexed : Indexed before)
    (began : Began before key fingerprint waiter outcome after) : Indexed after := by
  cases began with
  | rejected code message => exact indexed
  | replayed held => exact indexed
  | repeated same listed => exact indexed
  | @joined waiters fresh held =>
    refine indexed.enlist waiters fresh (fun other => ?_)
      (indexed.nodup key waiters ⟨_, held⟩) rfl fun other others => ?_
    · rw [indexed.index]
      constructor
      · rintro ⟨others, lists, member⟩
        exact lists_unique lists ⟨_, held⟩ ▸ member
      · exact fun member => ⟨waiters, ⟨_, held⟩, member⟩
    · simp only [OperationLedger.Lists, Table.get_modify]
      by_cases same : other = key
      · simp [same, held, eq_comm]
      · simp [same]
  | routed fresh absent room =>
    refine indexed.enlist [] fresh (fun other => ?_) List.nodup_nil rfl
      fun other others => ?_
    · simp [indexed.index, OperationLedger.Lists, absent]
    · simp only [OperationLedger.Lists, Table.get_insert]
      by_cases same : other = key
      · simp [same, eq_comm]
      · simp [same]

/-- The operation whose response is stored is no longer pending. -/
theorem store_lists_iff (env : LedgerEnv Ok) (now : ℕ) (order : List OperationKey)
    (response : ResponsePayload Ok) (found : Option OperationKey) {waiters : List OperationWaiter} :
    (store env now order response found ledger).Lists key waiters ↔
      found ≠ some key ∧ ledger.Lists key waiters := by
  cases found with
  | none => simp [store]
  | some target =>
    obtain ⟨state, responses, bytes, shape, released⟩ :=
      recordResponse_released env ledger now order target response
    refine released.lists_iff.trans ?_
    simp only [OperationLedger.Lists, Table.get_modify, ne_eq, Option.some.injEq]
    by_cases same : key = target
    · subst same
      rcases shape with rfl | ⟨size, rfl⟩ <;> simp
    · simp [same, Ne.symm same]

theorem Indexed.finished (indexed : Indexed before)
    (finished : Finished before routedRequest response result found after) (now : ℕ)
    (order : List OperationKey) : Indexed (store env now order response found after) := by
  obtain ⟨pending, -⟩ := store_requests env now order response found after
  cases finished with
  | unknown absent => exact indexed
  | settled owned closed => exact ⟨indexed.index, indexed.nodup⟩
  | @released key fingerprint waiters owned held =>
    refine ⟨fun other target => ?_, fun target others lists => ?_⟩
    · simp only [pending, store_lists_iff, get_foldl_erase]
      by_cases member : other ∈ waiters
      · simp only [member, if_true, reduceCtorEq, false_iff, not_exists]
        rintro others ⟨⟨apart, lists⟩, listed⟩
        have here := (indexed.index other key).mpr ⟨waiters, ⟨fingerprint, held⟩, member⟩
        have there := (indexed.index other target).mpr ⟨others, lists, listed⟩
        rw [here] at there
        exact apart there
      · rw [if_neg member, indexed.index]
        refine exists_congr fun others => ?_
        constructor
        · rintro ⟨lists, listed⟩
          refine ⟨⟨fun equal => ?_, lists⟩, listed⟩
          obtain rfl := Option.some.inj equal
          exact member (lists_unique lists ⟨fingerprint, held⟩ ▸ listed)
        · rintro ⟨⟨-, lists⟩, listed⟩
          exact ⟨lists, listed⟩
    · exact indexed.nodup target others ((store_lists_iff env now order response _).mp lists).2

theorem removeWaiters_lists_iff (clientId : UInt64) {others : List OperationWaiter} :
    (ledger.removeWaitersForClient clientId).Lists key others ↔
      ∃ waiters, ledger.Lists key waiters ∧
        others = waiters.filter fun waiter => waiter.clientId ≠ clientId := by
  simp only [OperationLedger.Lists, OperationLedger.removeWaitersForClient, Table.get_mapValues]
  cases held : ledger.entries.get key with
  | none => simp
  | some entry =>
    obtain ⟨fingerprint, state⟩ := entry
    cases state with
    | pending waiters => simp [eq_comm]
    | completed response time bytes => simp
    | tombstone => simp

theorem Indexed.disconnected (indexed : Indexed ledger) (clientId : UInt64) :
    Indexed (ledger.removeWaitersForClient clientId) := by
  refine ⟨fun other target => ?_, fun target others lists => ?_⟩
  · simp only [removeWaiters_lists_iff]
    have kept : (ledger.removeWaitersForClient clientId).pendingRequests.get other = some target ↔
        ledger.pendingRequests.get other = some target ∧ other.clientId ≠ clientId := by
      simp [OperationLedger.removeWaitersForClient, Option.filter_eq_some_iff]
    rw [kept, indexed.index]
    constructor
    · rintro ⟨⟨waiters, lists, member⟩, apart⟩
      exact ⟨_, ⟨waiters, lists, rfl⟩, by simp [member, apart]⟩
    · rintro ⟨_, ⟨waiters, lists, rfl⟩, member⟩
      obtain ⟨inside, apart⟩ := List.mem_filter.mp member
      exact ⟨⟨waiters, lists, inside⟩, by simpa using apart⟩
  · obtain ⟨waiters, before, rfl⟩ := (removeWaiters_lists_iff clientId).mp lists
    exact (indexed.nodup target waiters before).filter _

end Listed

section Accounts

variable {routedRequest : OperationWaiter} {response : ResponsePayload Ok}
variable {result : Option (CompletedOperation Ok)} {found : Option OperationKey}

/-- The counters are exact and within the limits. -/
structure Accounts (limits : LedgerLimits) (ledger : OperationLedger Ok) : Prop where
  limits_eq : ledger.limits = limits
  balanced : Balanced ledger
  within : WithinLimits ledger
  size : ledger.entries.size ≤ limits.identityCapacity

theorem Accounts.pruneExpired (accounts : Accounts limits ledger) (now : ℕ)
    (order : List OperationKey) : Accounts limits (ledger.pruneExpired now order) where
  limits_eq := (Released.pruneExpired ledger now order).limits.trans accounts.limits_eq
  balanced := accounts.balanced.foldl_expireCompleted _
  within := accounts.within.foldl_expireCompleted _
  size := (Released.pruneExpired ledger now order).size ▸ accounts.size

/-- A change of an entry that holds no response before and after. -/
theorem total_modify_silent {entry : OperationEntry Ok} {change : OperationEntry Ok → OperationEntry Ok}
    (held : ledger.entries.get key = some entry) (weight : OperationEntry Ok → ℕ)
    (same : weight (change entry) = weight entry) :
    (ledger.entries.modify key change).total weight = ledger.entries.total weight := by
  have exchanged := ledger.entries.total_modify weight change held
  omega

theorem Accounts.began (accounts : Accounts limits before)
    (began : Began before key fingerprint waiter outcome after) : Accounts limits after := by
  obtain ⟨limits_eq, balanced, within, size⟩ := accounts
  cases began with
  | rejected code message => exact ⟨limits_eq, balanced, within, size⟩
  | replayed held => exact ⟨limits_eq, balanced, within, size⟩
  | repeated same listed => exact ⟨limits_eq, balanced, within, size⟩
  | joined fresh held =>
    refine ⟨limits_eq, ⟨?_, ?_⟩, ⟨within.responses, within.bytes⟩, size⟩
    · exact balanced.responses.trans (total_modify_silent held holdsResponse rfl).symm
    · exact balanced.bytes.trans (total_modify_silent held recordedBytes rfl).symm
  | routed fresh absent room =>
    refine ⟨limits_eq, ⟨?_, ?_⟩, ⟨within.responses, within.bytes⟩, ?_⟩
    · rw [Table.total_insert_fresh _ _ _ absent]
      exact balanced.responses
    · rw [Table.total_insert_fresh _ _ _ absent]
      exact balanced.bytes
    · rw [Table.size_insert_fresh _ _ absent, ← limits_eq]
      exact room

/-- A response that is not too large is counted without saturation. -/
theorem Accounts.storeCompleted (accounts : Accounts limits ledger) (adequate : limits.Adequate)
    {waiters : List OperationWaiter} {size : ℕ} (small : size ≤ limits.maxResponseBytes)
    (held : ledger.entries.get key = some ⟨fingerprint, .pending waiters⟩) (now : ℕ) :
    Balanced (ledger.storeCompleted key response now size) := by
  have responses : (ledger.storeCompleted key response now size).entries.total holdsResponse =
      ledger.entries.total holdsResponse + 1 := ledger.entries.total_modify holdsResponse _ held
  have bytes : (ledger.storeCompleted key response now size).entries.total recordedBytes =
      ledger.entries.total recordedBytes + size := ledger.entries.total_modify recordedBytes _ held
  have count : (ledger.storeCompleted key response now size).entries.total holdsResponse ≤
      ledger.entries.size :=
    (Table.total_le_size _ _ fun entry => by rw [holdsResponse]; split <;> omega)
  have within := accounts.within.bytes
  have balanced := accounts.balanced
  have room := accounts.size
  have capacity := adequate.identities
  have sum := adequate.sum
  rw [accounts.limits_eq] at within
  refine ⟨?_, ?_⟩
  · rw [responses] at count ⊢
    rw [OperationLedger.storeCompleted, saturatingAdd, balanced.responses]
    exact Nat.min_eq_left (by omega)
  · rw [bytes, OperationLedger.storeCompleted, saturatingAdd, ← balanced.bytes]
    exact Nat.min_eq_left (by omega)

/-- Storing the response of a pending operation keeps the counters exact and within the limits. -/
theorem Accounts.recordResponse (accounts : Accounts limits ledger) (adequate : limits.Adequate)
    {waiters : List OperationWaiter} {order : List OperationKey}
    (enumerates : ledger.entries.Enumerates order)
    (held : ledger.entries.get key = some ⟨fingerprint, .pending waiters⟩) (now : ℕ) :
    Accounts limits (ledger.recordResponse env now order key response) := by
  rw [OperationLedger.recordResponse]
  split_ifs with large
  · obtain ⟨limits_eq, balanced, within, size⟩ := accounts
    refine ⟨limits_eq, ⟨?_, ?_⟩, ⟨within.responses, within.bytes⟩, size⟩
    · exact balanced.responses.trans (total_modify_silent held holdsResponse rfl).symm
    · exact balanced.bytes.trans (total_modify_silent held recordedBytes rfl).symm
  · have small : env.serializedResponseSize response ≤ limits.maxResponseBytes := by
      rw [← accounts.limits_eq]
      exact Nat.le_of_not_lt large
    have balanced : Balanced (ledger.storeCompleted key response now
        (env.serializedResponseSize response)) := accounts.storeCompleted adequate small held now
    generalize stored : ledger.storeCompleted key response now (env.serializedResponseSize response) =
      next at balanced
    have released := Released.evictLoop key order (order.length + 1) next
    have limitsNext : next.limits = limits := by
      rw [← stored]
      exact accounts.limits_eq
    have keysNext : next.entries.keys = ledger.entries.keys := by
      rw [← stored]
      rfl
    have balancedLast := balanced.evictLoop key order (order.length + 1)
    have limitsLast := released.limits.trans limitsNext
    refine ⟨limitsLast, balancedLast, ?_, ?_⟩
    · have enough : (evictable next key order).length < order.length + 1 :=
        Nat.lt_succ_of_le ((List.length_filter_le _ _).trans (List.length_filter_le _ _))
      rcases evictLoop_stops enough with within | only
      · exact within
      · refine within_of_only balancedLast (limitsLast ▸ adequate) ?_ only fun entry last => ?_
        · exact ⟨enumerates.1, fun other => (enumerates.2 other).trans
            (by rw [released.keys, keysNext])⟩
        · rw [limitsLast]
          rcases released.entry key with same | ⟨_, _, _, _, -, gone⟩
          · rw [same, ← stored, OperationLedger.storeCompleted, Table.get_modify, if_pos rfl, held,
              Option.map_some, Option.some.injEq] at last
            subst last
            exact small
          · rw [gone, Option.some.injEq] at last
            subst last
            exact Nat.zero_le _
    · rw [released.size, Table.size, keysNext]
      exact accounts.size

/-- The request maps do not matter. -/
theorem Accounts.requests (accounts : Accounts limits ledger)
    (routed pending : Table OperationWaiter OperationKey) :
    Accounts limits { ledger with routedRequests := routed, pendingRequests := pending } :=
  ⟨accounts.limits_eq, ⟨accounts.balanced.responses, accounts.balanced.bytes⟩,
    ⟨accounts.within.responses, accounts.within.bytes⟩, accounts.size⟩

theorem Accounts.finished (accounts : Accounts limits before) (adequate : limits.Adequate)
    {order : List OperationKey} (enumerates : before.entries.Enumerates order)
    (finished : Finished before routedRequest response result found after) (now : ℕ) :
    Accounts limits (store env now order response found after) := by
  cases finished with
  | unknown absent => exact accounts
  | settled owned closed => exact accounts.requests _ _
  | @released key fingerprint waiters owned held =>
    exact (accounts.requests (before.routedRequests.erase routedRequest)
      (waiters.foldl Table.erase before.pendingRequests)).recordResponse adequate enumerates held now

theorem Accounts.disconnected (accounts : Accounts limits ledger) (clientId : UInt64) :
    Accounts limits (ledger.removeWaitersForClient clientId) := by
  obtain ⟨limits_eq, balanced, within, size⟩ := accounts
  refine ⟨limits_eq, ⟨?_, ?_⟩, ⟨within.responses, within.bytes⟩, size⟩
  · refine balanced.responses.trans (Table.total_mapValues _ _ _ fun _ entry => ?_).symm
    obtain ⟨fingerprint, state⟩ := entry
    cases state <;> rfl
  · refine balanced.bytes.trans (Table.total_mapValues _ _ _ fun _ entry => ?_).symm
    obtain ⟨fingerprint, state⟩ := entry
    cases state <;> rfl

end Accounts

section Owned

variable {routedRequest : OperationWaiter} {response : ResponsePayload Ok}
variable {result : Option (CompletedOperation Ok)} {found : Option OperationKey}

/-- Every pending operation has one owner, and an owner's operation is pending. -/
structure Owned (ledger : OperationLedger Ok) : Prop where
  pending_iff : ∀ key, (∃ waiters, ledger.Lists key waiters) ↔
    ∃ owner, ledger.routedRequests.get owner = some key
  unique : ∀ first second key, ledger.routedRequests.get first = some key →
    ledger.routedRequests.get second = some key → first = second

theorem Owned.released (owned : Owned before) (released : Released before after) : Owned after where
  pending_iff key := by
    rw [released.routed, ← owned.pending_iff]
    exact exists_congr fun _ => released.lists_iff
  unique := released.routed ▸ owned.unique

theorem Owned.began (owned : Owned before) (idle : before.routedRequests.get waiter = none)
    (began : Began before key fingerprint waiter outcome after) : Owned after := by
  cases began with
  | rejected code message => exact owned
  | replayed held => exact owned
  | repeated same listed => exact owned
  | joined fresh held =>
    refine ⟨fun other => ?_, owned.unique⟩
    rw [← owned.pending_iff]
    simp only [OperationLedger.Lists, Table.get_modify]
    by_cases same : other = key
    · simp [same, held]
    · simp [same]
  | routed fresh absent room =>
    refine ⟨fun other => ?_, fun first second other one two => ?_⟩
    · simp only [OperationLedger.Lists, Table.get_insert]
      by_cases same : other = key
      · subst same
        exact ⟨fun _ => ⟨waiter, by simp⟩, fun _ => ⟨[waiter], fingerprint, by simp⟩⟩
      · refine Iff.trans (by simp [OperationLedger.Lists, same]) ((owned.pending_iff other).trans ?_)
        constructor
        · rintro ⟨owner, routed⟩
          refine ⟨owner, ?_⟩
          rw [if_neg]
          · exact routed
          · rintro rfl
            simp [idle] at routed
        · rintro ⟨owner, routed⟩
          split_ifs at routed with equal
          · exact (same (Option.some.inj routed).symm).elim
          · exact ⟨owner, routed⟩
    · have closed : ∀ owner, before.routedRequests.get owner ≠ some key := by
        intro owner routed
        obtain ⟨waiters, _, held⟩ := (owned.pending_iff key).mpr ⟨owner, routed⟩
        simp [absent] at held
      simp only [Table.get_insert] at one two
      split_ifs at one two with firstNew secondNew secondNew
      · rw [firstNew, secondNew]
      · obtain rfl := Option.some.inj one
        exact (closed second two).elim
      · obtain rfl := Option.some.inj two
        exact (closed first one).elim
      · exact owned.unique first second other one two

theorem Owned.finished (owned : Owned before)
    (finished : Finished before routedRequest response result found after) (now : ℕ)
    (order : List OperationKey) : Owned (store env now order response found after) := by
  obtain ⟨-, routed⟩ := store_requests env now order response found after
  cases finished with
  | unknown absent => exact owned
  | @settled key routes closed =>
    obtain ⟨waiters, fingerprint, held⟩ := (owned.pending_iff key).mpr ⟨routedRequest, routes⟩
    exact (closed fingerprint waiters held).elim
  | @released key fingerprint waiters routes held =>
    refine ⟨fun other => ?_, fun first second other one two => ?_⟩
    · simp only [store_lists_iff, exists_and_left, routed, Table.get_erase]
      refine (and_congr_right' (owned.pending_iff other)).trans ?_
      constructor
      · rintro ⟨apart, owner, found⟩
        refine ⟨owner, ?_⟩
        rw [if_neg]
        · exact found
        · rintro rfl
          exact apart (routes.symm.trans found)
      · rintro ⟨owner, found⟩
        split_ifs at found with same
        refine ⟨fun equal => same (owned.unique owner routedRequest other found ?_), owner, found⟩
        rw [routes]
        exact equal
    · rw [routed, Table.get_erase] at one two
      split_ifs at one two
      exact owned.unique first second other one two

theorem Owned.disconnected (owned : Owned ledger) (clientId : UInt64) :
    Owned (ledger.removeWaitersForClient clientId) where
  pending_iff key := by
    simp only [removeWaiters_lists_iff]
    refine Iff.trans ?_ (owned.pending_iff key)
    exact ⟨fun ⟨_, waiters, lists, _⟩ => ⟨waiters, lists⟩, fun ⟨waiters, lists⟩ => ⟨_, waiters, lists, rfl⟩⟩
  unique := owned.unique

end Owned

end CueShell
