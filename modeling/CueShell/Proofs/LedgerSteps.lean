import CueShell.Model.LedgerRun

/-! # Steps of the operation ledger

What `begin` and `complete` can do is said once; expiry and eviction only turn recorded responses
into tombstones and keep the counters exact.
-/

namespace CueShell

variable {Ok : Type} {env : LedgerEnv Ok} {ledger before after : OperationLedger Ok}
variable {key : OperationKey} {waiter : OperationWaiter} {now : ℕ} {order : List OperationKey}

/-- An event of an extended log is the new one, or it is an event of the old log. -/
theorem snoc_eq_append_cons {α : Type} {log earlier later : List α} {last event : α}
    (split : log ++ [last] = earlier ++ event :: later) :
    (later = [] ∧ log = earlier ∧ last = event) ∨
      ∃ front, later = front ++ [last] ∧ log = earlier ++ event :: front := by
  rcases List.eq_nil_or_concat later with rfl | ⟨front, final, rfl⟩
  · obtain ⟨same, tail⟩ := List.append_inj' split rfl
    exact .inl ⟨rfl, same, (List.cons.inj tail).1⟩
  · rw [List.concat_eq_append, ← List.cons_append, ← List.append_assoc] at split
    obtain ⟨same, tail⟩ := List.append_inj' split rfl
    exact .inr ⟨front, by rw [List.concat_eq_append, tail], same⟩

/-- Some responses have been released; nothing else has changed. -/
structure Released (before after : OperationLedger Ok) : Prop where
  routed : after.routedRequests = before.routedRequests
  pending : after.pendingRequests = before.pendingRequests
  limits : after.limits = before.limits
  keys : after.entries.keys = before.entries.keys
  entry : ∀ key, after.entries.get key = before.entries.get key ∨
    ∃ fingerprint response completedAt bytes,
      before.entries.get key = some ⟨fingerprint, .completed response completedAt bytes⟩ ∧
      after.entries.get key = some ⟨fingerprint, .tombstone⟩

namespace Released

theorem refl (ledger : OperationLedger Ok) : Released ledger ledger :=
  ⟨rfl, rfl, rfl, rfl, fun _ => .inl rfl⟩

theorem trans {middle : OperationLedger Ok} (first : Released before middle)
    (second : Released middle after) : Released before after := by
  refine ⟨second.routed.trans first.routed, second.pending.trans first.pending,
    second.limits.trans first.limits, second.keys.trans first.keys, fun key => ?_⟩
  rcases second.entry key with same | ⟨fingerprint, response, time, bytes, held, gone⟩
  · rw [same]
    exact first.entry key
  · rcases first.entry key with same | ⟨fingerprint', response', time', bytes', held', gone'⟩
    · rw [same] at held
      exact .inr ⟨fingerprint, response, time, bytes, held, gone⟩
    · simp [gone'] at held

theorem expireCompleted (ledger : OperationLedger Ok) (key : OperationKey) :
    Released ledger (ledger.expireCompleted key) := by
  rw [OperationLedger.expireCompleted]
  split
  · next fingerprint response time bytes held =>
    refine ⟨rfl, rfl, rfl, rfl, fun other => ?_⟩
    rw [Table.get_modify]
    by_cases same : other = key
    · subst same
      exact .inr ⟨fingerprint, response, time, bytes, held, by simp [held]⟩
    · exact .inl (by simp [same])
  · exact refl ledger

theorem foldl_expireCompleted (keys : List OperationKey) (ledger : OperationLedger Ok) :
    Released ledger (keys.foldl OperationLedger.expireCompleted ledger) := by
  induction keys generalizing ledger with
  | nil => exact refl ledger
  | cons key keys ih => exact (expireCompleted ledger key).trans (ih _)

theorem pruneExpired (ledger : OperationLedger Ok) (now : ℕ) (order : List OperationKey) :
    Released ledger (ledger.pruneExpired now order) :=
  foldl_expireCompleted _ _

theorem evictLoop (shielded : OperationKey) (order : List OperationKey) (fuel : ℕ)
    (ledger : OperationLedger Ok) :
    Released ledger (OperationLedger.evictLoop shielded order fuel ledger) := by
  induction fuel generalizing ledger with
  | zero => exact refl ledger
  | succ fuel ih =>
    rw [OperationLedger.evictLoop]
    split
    · split
      · exact (expireCompleted _ _).trans (ih _)
      · exact refl ledger
    · exact refl ledger

/-- Identities survive. -/
theorem fingerprint (released : Released before after) (key : OperationKey) :
    (after.entries.get key).map OperationEntry.fingerprint =
      (before.entries.get key).map OperationEntry.fingerprint := by
  rcases released.entry key with same | ⟨fingerprint, response, time, bytes, held, gone⟩
  · rw [same]
  · simp [held, gone]

/-- Pending entries are untouched. -/
theorem pending_iff (released : Released before after) {fingerprint : Digest}
    {waiters : List OperationWaiter} :
    after.entries.get key = some ⟨fingerprint, .pending waiters⟩ ↔
      before.entries.get key = some ⟨fingerprint, .pending waiters⟩ := by
  rcases released.entry key with same | ⟨fingerprint', response, time, bytes, held, gone⟩
  · rw [same]
  · simp [held, gone]

/-- A response that is still there was there before. -/
theorem completed_of (released : Released before after) {fingerprint : Digest}
    {response : ResponsePayload Ok} {time bytes : ℕ}
    (held : after.entries.get key = some ⟨fingerprint, .completed response time bytes⟩) :
    before.entries.get key = some ⟨fingerprint, .completed response time bytes⟩ := by
  rcases released.entry key with same | ⟨fingerprint', response', time', bytes', -, gone⟩
  · rwa [same] at held
  · simp [gone] at held

theorem size (released : Released before after) : after.entries.size = before.entries.size := by
  rw [Table.size, released.keys, Table.size]

end Released

section Counters

/-- One for an entry that holds a response. -/
def holdsResponse (entry : OperationEntry Ok) : ℕ :=
  match entry.state with
  | .completed _ _ _ => 1
  | .pending _ | .tombstone => 0

/-- The recorded size of the response an entry holds. -/
def recordedBytes (entry : OperationEntry Ok) : ℕ :=
  match entry.state with
  | .completed _ _ bytes => bytes
  | .pending _ | .tombstone => 0

/-- The counters agree with the entries. -/
structure Balanced (ledger : OperationLedger Ok) : Prop where
  responses : ledger.completedResponses = ledger.entries.total holdsResponse
  bytes : ledger.completedBytes = ledger.entries.total recordedBytes

structure WithinLimits (ledger : OperationLedger Ok) : Prop where
  responses : ledger.completedResponses ≤ ledger.limits.responseCapacity
  bytes : ledger.completedBytes ≤ ledger.limits.maxCompletedBytes

theorem overLimits_eq_false : ledger.overLimits = false ↔ WithinLimits ledger := by
  simp only [OperationLedger.overLimits, Bool.or_eq_false_iff, decide_eq_false_iff_not, not_lt]
  exact ⟨fun ⟨responses, bytes⟩ => ⟨responses, bytes⟩, fun within => ⟨within.responses, within.bytes⟩⟩

theorem Balanced.expireCompleted (balanced : Balanced ledger) (key : OperationKey) :
    Balanced (ledger.expireCompleted key) := by
  rw [OperationLedger.expireCompleted]
  split
  · next fingerprint response time bytes held =>
    have responses := ledger.entries.total_modify holdsResponse
      (fun entry => { entry with state := .tombstone }) held
    have sizes := ledger.entries.total_modify recordedBytes
      (fun entry => { entry with state := .tombstone }) held
    simp only [holdsResponse, recordedBytes] at responses sizes
    refine ⟨?_, ?_⟩
    · dsimp only
      rw [balanced.responses]
      omega
    · dsimp only
      rw [balanced.bytes]
      omega
  · exact balanced

theorem Balanced.foldl_expireCompleted (balanced : Balanced ledger) (keys : List OperationKey) :
    Balanced (keys.foldl OperationLedger.expireCompleted ledger) := by
  induction keys generalizing ledger with
  | nil => exact balanced
  | cons key keys ih => exact ih (balanced.expireCompleted key)

theorem Balanced.evictLoop (balanced : Balanced ledger) (shielded : OperationKey)
    (order : List OperationKey) (fuel : ℕ) :
    Balanced (OperationLedger.evictLoop shielded order fuel ledger) := by
  induction fuel generalizing ledger with
  | zero => exact balanced
  | succ fuel ih =>
    rw [OperationLedger.evictLoop]
    split
    · split
      · exact ih (balanced.expireCompleted _)
      · exact balanced
    · exact balanced

theorem WithinLimits.expireCompleted (within : WithinLimits ledger) (key : OperationKey) :
    WithinLimits (ledger.expireCompleted key) := by
  rw [OperationLedger.expireCompleted]
  split
  · exact ⟨(Nat.sub_le _ _).trans within.responses, (Nat.sub_le _ _).trans within.bytes⟩
  · exact within

theorem WithinLimits.foldl_expireCompleted (within : WithinLimits ledger) (keys : List OperationKey) :
    WithinLimits (keys.foldl OperationLedger.expireCompleted ledger) := by
  induction keys generalizing ledger with
  | nil => exact within
  | cons key keys ih => exact ih (within.expireCompleted key)

end Counters

section Eviction

variable {shielded : OperationKey}

/-- The keys of responses that may be evicted. -/
def evictable (ledger : OperationLedger Ok) (shielded : OperationKey) (order : List OperationKey) :
    List OperationKey :=
  (order.filter (shielded ≠ ·)).filter fun key =>
    (OperationLedger.completedAt (ledger.entries.get key)).isSome

theorem oldestCompleted_eq_none (none : ledger.oldestCompleted shielded order = none) :
    evictable ledger shielded order = [] := by
  simp only [OperationLedger.oldestCompleted, Option.map_eq_none_iff, List.argmin_eq_none,
    List.filterMap_eq_nil_iff] at none
  rw [evictable, List.filter_eq_nil_iff]
  intro key member
  simpa using none key member

theorem mem_evictable_of_oldest (found : ledger.oldestCompleted shielded order = some key) :
    key ∈ evictable ledger shielded order := by
  simp only [OperationLedger.oldestCompleted, Option.map_eq_some_iff] at found
  obtain ⟨⟨oldest, time⟩, isOldest, rfl⟩ := found
  obtain ⟨other, member, held⟩ := List.mem_filterMap.mp (List.argmin_mem isOldest)
  obtain ⟨time', recorded, same⟩ := Option.map_eq_some_iff.mp held
  obtain ⟨rfl, rfl⟩ := Prod.mk.inj same
  exact List.mem_filter.mpr ⟨member, by simp [recorded]⟩

/-- Releasing a response makes fewer of them evictable. -/
theorem evictable_expireCompleted (member : key ∈ evictable ledger shielded order) :
    (evictable (ledger.expireCompleted key) shielded order).length <
      (evictable ledger shielded order).length := by
  obtain ⟨inside, held⟩ := List.mem_filter.mp member
  have fewer : evictable (ledger.expireCompleted key) shielded order =
      (evictable ledger shielded order).filter (· ≠ key) := by
    simp only [evictable, List.filter_filter (l := order.filter _)]
    refine List.filter_congr fun other _ => ?_
    rw [OperationLedger.expireCompleted]
    split
    · rw [Table.get_modify]
      by_cases same : other = key
      · simp_all [OperationLedger.completedAt]
      · simp [same]
    · next absent =>
      by_cases same : other = key
      · subst same
        cases found : ledger.entries.get other with
        | none => simp [found, OperationLedger.completedAt] at held
        | some entry =>
          obtain ⟨fingerprint, state⟩ := entry
          cases state with
          | pending waiters => simp [found, OperationLedger.completedAt] at held
          | tombstone => simp [found, OperationLedger.completedAt] at held
          | completed response time bytes => exact (absent _ _ _ _ found).elim
      · simp [same]
  rw [fewer, List.length_filter_lt_length_iff_exists]
  exact ⟨key, member, by simp⟩

/-- The loop stops within the limits, or when only the protected response is left. -/
theorem evictLoop_stops {fuel : ℕ} (enough : (evictable ledger shielded order).length < fuel) :
    WithinLimits (OperationLedger.evictLoop shielded order fuel ledger) ∨
      evictable (OperationLedger.evictLoop shielded order fuel ledger) shielded order = [] := by
  induction fuel generalizing ledger with
  | zero => omega
  | succ fuel ih =>
    rw [OperationLedger.evictLoop]
    split
    · split
      · next key found =>
        have shorter := evictable_expireCompleted (mem_evictable_of_oldest found)
        exact ih (by omega)
      · next none => exact .inr (oldestCompleted_eq_none none)
    · next within => exact .inl (overLimits_eq_false.mp (by simpa using within))

/-- Limits under which the response that was stored last always fits. -/
structure LedgerLimits.Adequate (limits : LedgerLimits) : Prop where
  responses : 1 ≤ limits.responseCapacity
  bytes : limits.maxResponseBytes ≤ limits.maxCompletedBytes
  identities : limits.identityCapacity ≤ usizeMax
  sum : limits.maxCompletedBytes + limits.maxResponseBytes ≤ usizeMax

theorem LedgerLimits.adequate_default : LedgerLimits.default.Adequate := by
  constructor <;> decide

theorem within_of_only (balanced : Balanced ledger) (adequate : ledger.limits.Adequate)
    (enumerates : ledger.entries.Enumerates order) (only : evictable ledger shielded order = [])
    (fits : ∀ entry, ledger.entries.get shielded = some entry →
      recordedBytes entry ≤ ledger.limits.maxResponseBytes) :
    WithinLimits ledger := by
  have silent : ∀ other entry, ledger.entries.get other = some entry → other ≠ shielded →
      ∀ response time bytes, entry.state ≠ .completed response time bytes := by
    intro other entry found apart response time bytes state
    have member : other ∈ order :=
      (enumerates.2 other).mpr ((ledger.entries.mem_keys other).mpr (by simp [found]))
    have listed : other ∈ evictable ledger shielded order := by
      refine List.mem_filter.mpr ⟨List.mem_filter.mpr ⟨member, by simpa using apart.symm⟩, ?_⟩
      obtain ⟨fingerprint, state'⟩ := entry
      obtain rfl : state' = _ := state
      simp [found, OperationLedger.completedAt]
    simp [only] at listed
  refine ⟨?_, ?_⟩
  · rw [balanced.responses]
    refine (Table.total_le_of_single _ _ shielded (fun other entry found apart => ?_) fun entry _ => ?_).trans
      adequate.responses
    · rw [holdsResponse]
      split
      · next state => exact (silent other entry found apart _ _ _ state).elim
      · rfl
      · rfl
    · rw [holdsResponse]
      split <;> omega
  · rw [balanced.bytes]
    refine (Table.total_le_of_single _ _ shielded (fun other entry found apart => ?_) fits).trans adequate.bytes
    rw [recordedBytes]
    split
    · next state => exact (silent other entry found apart _ _ _ state).elim
    · rfl
    · rfl

end Eviction

section Begin

/-- Everything `begin` can do once expired responses have been released. -/
inductive Began (ledger : OperationLedger Ok) (key : OperationKey) (fingerprint : Digest)
    (waiter : OperationWaiter) : BeginOutcome Ok → OperationLedger Ok → Prop
  | rejected (code message : String) :
      Began ledger key fingerprint waiter (.respond (.err code message)) ledger
  | replayed {response : ResponsePayload Ok} {time bytes : ℕ}
      (held : ledger.entries.get key = some ⟨fingerprint, .completed response time bytes⟩) :
      Began ledger key fingerprint waiter (.respond response) ledger
  | repeated (same : ∀ entry, ledger.entries.get key = some entry → entry.fingerprint = fingerprint)
      (listed : ledger.pendingRequests.get waiter = some key) :
      Began ledger key fingerprint waiter .wait ledger
  | joined {waiters : List OperationWaiter} (fresh : ledger.pendingRequests.get waiter = none)
      (held : ledger.entries.get key = some ⟨fingerprint, .pending waiters⟩) :
      Began ledger key fingerprint waiter .wait
        { ledger with
          entries := ledger.entries.modify key fun entry =>
            { entry with state := .pending (waiters ++ [waiter]) }
          pendingRequests := ledger.pendingRequests.insert waiter key }
  | routed (fresh : ledger.pendingRequests.get waiter = none)
      (absent : ledger.entries.get key = none)
      (room : ledger.entries.size < ledger.limits.identityCapacity) :
      Began ledger key fingerprint waiter .route
        { ledger with
          entries := ledger.entries.insert key ⟨fingerprint, .pending [waiter]⟩
          routedRequests := ledger.routedRequests.insert waiter key
          pendingRequests := ledger.pendingRequests.insert waiter key }

theorem beginPruned_began (env : LedgerEnv Ok) (ledger : OperationLedger Ok)
    (sessionNamespace : Digest) (operationId : String) (fingerprint : Digest)
    (waiter : OperationWaiter) :
    Began ledger (env.operationKey sessionNamespace operationId) fingerprint waiter
      (ledger.beginPruned env sessionNamespace operationId fingerprint waiter).1
      (ledger.beginPruned env sessionNamespace operationId fingerprint waiter).2 := by
  rw [OperationLedger.beginPruned]
  split
  · exact .rejected _ _
  · dsimp only
    split
    · exact .rejected _ _
    · next agrees =>
      have same : ∀ entry, ledger.entries.get (env.operationKey sessionNamespace operationId) =
          some entry → entry.fingerprint = fingerprint := by
        intro entry found
        simpa [found] using agrees
      split
      · next existing listed =>
        split_ifs with equal
        · exact .repeated same (equal ▸ listed)
        · exact .rejected _ _
      · next entry fresh found =>
        obtain ⟨stored, state⟩ := entry
        obtain rfl : stored = fingerprint := same _ found
        cases state with
        | pending waiters =>
          simp only [OperationLedger.joinEntry]
          split_ifs
          · exact .rejected _ _
          · exact .joined fresh found
        | completed response time bytes => exact .replayed found
        | tombstone => exact .rejected _ _
      · next fresh absent =>
        split_ifs with full
        · exact .rejected _ _
        · exact .routed fresh absent (Nat.lt_of_not_le full)

/-- A payload that differs from the registered one is rejected. -/
theorem beginPruned_conflict {sessionNamespace : Digest} {operationId : String}
    {fingerprint : Digest} {entry : OperationEntry Ok}
    (found : ledger.entries.get (env.operationKey sessionNamespace operationId) = some entry)
    (differs : entry.fingerprint ≠ fingerprint) :
    ∃ message, (ledger.beginPruned env sessionNamespace operationId fingerprint waiter).1 =
      .respond (.err "INVALID_REQUEST" message) := by
  rw [OperationLedger.beginPruned]
  split
  · exact ⟨_, rfl⟩
  · simp [found, differs, OperationLedger.rejection]

end Begin

section Complete

/-- Everything `complete` can do before the response is stored. -/
inductive Finished (ledger : OperationLedger Ok) (routedRequest : OperationWaiter)
    (response : ResponsePayload Ok) :
    Option (CompletedOperation Ok) → Option OperationKey → OperationLedger Ok → Prop
  | unknown (absent : ledger.routedRequests.get routedRequest = none) :
      Finished ledger routedRequest response none none ledger
  | settled {key : OperationKey} (owned : ledger.routedRequests.get routedRequest = some key)
      (closed : ∀ fingerprint waiters,
        ledger.entries.get key ≠ some ⟨fingerprint, .pending waiters⟩) :
      Finished ledger routedRequest response none none
        { ledger with routedRequests := ledger.routedRequests.erase routedRequest }
  | released {key : OperationKey} {fingerprint : Digest} {waiters : List OperationWaiter}
      (owned : ledger.routedRequests.get routedRequest = some key)
      (held : ledger.entries.get key = some ⟨fingerprint, .pending waiters⟩) :
      Finished ledger routedRequest response (some ⟨waiters, response⟩) (some key)
        { ledger with
          routedRequests := ledger.routedRequests.erase routedRequest
          pendingRequests := waiters.foldl Table.erase ledger.pendingRequests }

/-- Store the response if there is an operation to store it for. -/
def store (env : LedgerEnv Ok) (now : ℕ) (order : List OperationKey) (response : ResponsePayload Ok)
    (key : Option OperationKey) (ledger : OperationLedger Ok) : OperationLedger Ok :=
  key.elim ledger fun key => ledger.recordResponse env now order key response

theorem complete_finished (env : LedgerEnv Ok) (ledger : OperationLedger Ok) (now : ℕ)
    (order : List OperationKey) (routedRequest : OperationWaiter) (response : ResponsePayload Ok) :
    ∃ key next, Finished ledger routedRequest response
        (ledger.complete env now order routedRequest response).1 key next ∧
      (ledger.complete env now order routedRequest response).2 =
        store env now order response key next := by
  rw [OperationLedger.complete]
  split
  · next absent => exact ⟨none, ledger, .unknown absent, rfl⟩
  · next key owned =>
    dsimp only
    split
    · next fingerprint waiters held => exact ⟨some key, _, .released owned held, rfl⟩
    · next closed =>
      exact ⟨none, _, .settled owned fun fingerprint waiters found => closed _ _ found, rfl⟩

/-- Storing a response changes the state of one entry, then releases others. -/
theorem recordResponse_released (env : LedgerEnv Ok) (ledger : OperationLedger Ok) (now : ℕ)
    (order : List OperationKey) (key : OperationKey) (response : ResponsePayload Ok) :
    ∃ state responses bytes,
      (state = .tombstone ∨ ∃ size, state = .completed response now size) ∧
      Released { ledger with
        entries := ledger.entries.modify key fun entry => { entry with state := state }
        completedResponses := responses, completedBytes := bytes }
        (ledger.recordResponse env now order key response) := by
  rw [OperationLedger.recordResponse]
  split_ifs
  · exact ⟨.tombstone, _, _, .inl rfl, .refl _⟩
  · exact ⟨_, _, _, .inr ⟨_, rfl⟩, .evictLoop _ _ _ _⟩

theorem get_foldl_erase (waiters : List OperationWaiter) (table : Table OperationWaiter OperationKey)
    (waiter : OperationWaiter) :
    (waiters.foldl Table.erase table).get waiter =
      if waiter ∈ waiters then none else table.get waiter := by
  induction waiters generalizing table with
  | nil => simp
  | cons first rest ih =>
    rw [List.foldl_cons, ih, Table.get_erase]
    by_cases same : waiter = first
    · simp [same]
    · simp [same]

end Complete

/-- A property of log and ledger that every operation keeps holds after every run. -/
theorem LedgerRun.preserves {limits : LedgerLimits} {log : List (LedgerEvent Ok)}
    (run : LedgerRun env limits log ledger) (Inv : List (LedgerEvent Ok) → OperationLedger Ok → Prop)
    (start : Inv [] (.new limits))
    (pruned : ∀ log ledger now order, Inv log ledger →
      Inv log (OperationLedger.pruneExpired ledger now order))
    (began : ∀ log before sessionNamespace operationId fingerprint waiter outcome after,
      Inv log before →
      Began before (env.operationKey sessionNamespace operationId) fingerprint waiter outcome after →
      Inv (log ++ [.began sessionNamespace operationId fingerprint waiter outcome]) after)
    (finished : ∀ log before now order routedRequest response result key after, Inv log before →
      before.entries.Enumerates order →
      Finished before routedRequest response result key after →
      Inv (log ++ [.completed routedRequest response result]) (store env now order response key after))
    (disconnected : ∀ log ledger clientId, Inv log ledger →
      Inv (log ++ [.disconnected clientId]) (ledger.removeWaitersForClient clientId)) :
    Inv log ledger := by
  induction run with
  | start => exact start
  | begin now order sessionNamespace operationId fingerprint waiter _ _ ih =>
    exact began _ _ _ _ _ _ _ _ (pruned _ _ now order ih)
      (beginPruned_began env _ sessionNamespace operationId fingerprint waiter)
  | complete now order routedRequest response _ enumerates ih =>
    obtain ⟨key, next, done, same⟩ := complete_finished env _ now order routedRequest response
    rw [same]
    exact finished _ _ now order _ _ _ key next ih enumerates done
  | disconnect clientId _ ih => exact disconnected _ _ clientId ih

/-- The digest of `abc`, and sizes and quotes as for ASCII text. -/
def sampleEnv : LedgerEnv Unit where
  blake3 _ := #v[100, 55, 179, 172, 56, 70, 81, 51, 255, 182, 59, 117, 39, 58, 141, 181, 72, 197, 88, 70,
    93, 121, 219, 3, 253, 53, 156, 108, 213, 189, 157, 133]
  serializedResponseSize _ := 17
  debugFormat text := "\"" ++ text ++ "\""

end CueShell
