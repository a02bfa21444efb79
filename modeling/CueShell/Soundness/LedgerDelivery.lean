import CueShell.Proofs.LedgerInvariants

/-! # Bookkeeping and delivery

The request index and the counters of the ledger are redundant; they agree with the entries after
every operation. A waiter that was promised a response is listed under its operation until the
owner's `complete` hands it out, and no other `complete` does.
-/

namespace CueShell

variable {Ok : Type} {env : LedgerEnv Ok} {limits : LedgerLimits}
variable {log : List (LedgerEvent Ok)} {ledger : OperationLedger Ok}
variable {key : OperationKey} {waiter : OperationWaiter}

section Runs

theorem LedgerRun.tracked (run : LedgerRun env limits log ledger) : Tracked env log ledger :=
  run.preserves (Tracked env) ⟨fun _ => rfl, fun _ => rfl⟩
    (fun _ ledger now order tracked => tracked.released (.pruneExpired ledger now order))
    (fun _ _ _ _ _ _ _ _ tracked began => tracked.began began)
    (fun _ _ _ _ _ _ _ _ _ tracked _ finished => tracked.finished finished)
    (fun _ _ clientId tracked => tracked.disconnected clientId)

theorem indexed_new (limits : LedgerLimits) : Indexed (OperationLedger.new limits : OperationLedger Ok) := by
  constructor <;> simp [OperationLedger.new, OperationLedger.Lists]

theorem LedgerRun.indexed (run : LedgerRun env limits log ledger) : Indexed ledger :=
  run.preserves (fun _ => Indexed) (indexed_new limits)
    (fun _ ledger now order indexed => indexed.released (.pruneExpired ledger now order))
    (fun _ _ _ _ _ _ _ _ indexed began => indexed.began began)
    (fun _ _ now order _ _ _ _ _ indexed _ finished => indexed.finished finished now order)
    (fun _ _ clientId indexed => indexed.disconnected clientId)

theorem LedgerRun.accounts (run : LedgerRun env limits log ledger) (adequate : limits.Adequate) :
    Accounts limits ledger :=
  run.preserves (fun _ => Accounts limits) ⟨rfl, ⟨rfl, rfl⟩, ⟨Nat.zero_le _, Nat.zero_le _⟩, Nat.zero_le _⟩
    (fun _ _ now order accounts => accounts.pruneExpired now order)
    (fun _ _ _ _ _ _ _ _ accounts began => accounts.began began)
    (fun _ _ now _ _ _ _ _ _ accounts enumerates finished =>
      accounts.finished adequate enumerates finished now)
    (fun _ _ clientId accounts => accounts.disconnected clientId)

theorem DistinctWaiters.dropLast {event : LedgerEvent Ok}
    (distinct : DistinctWaiters env (log ++ [event])) : DistinctWaiters env log := by
  intro before sessionNamespace operationId fingerprint waiter outcome after split
  exact distinct before sessionNamespace operationId fingerprint waiter outcome (after ++ [event])
    (by simp [split])

theorem DistinctWaiters.snoc (distinct : DistinctWaiters env log) (event : LedgerEvent Ok)
    (idle : ∀ sessionNamespace operationId fingerprint waiter outcome,
      event = .began sessionNamespace operationId fingerprint waiter outcome →
        awaiting env log waiter = none ∧ routing env log waiter = none) :
    DistinctWaiters env (log ++ [event]) := by
  intro before sessionNamespace operationId fingerprint waiter outcome after split
  rcases snoc_eq_append_cons split with ⟨-, rfl, rfl⟩ | ⟨front, -, known⟩
  · exact idle _ _ _ _ _ rfl
  · exact distinct before sessionNamespace operationId fingerprint waiter outcome front known

theorem owned_new (limits : LedgerLimits) : Owned (OperationLedger.new limits : OperationLedger Ok) := by
  constructor <;> simp [OperationLedger.new, OperationLedger.Lists]

theorem LedgerRun.owned (run : LedgerRun env limits log ledger) (distinct : DistinctWaiters env log) :
    Owned ledger := by
  have both : DistinctWaiters env log → Tracked env log ledger ∧ Owned ledger := by
    refine run.preserves
      (fun log ledger => DistinctWaiters env log → Tracked env log ledger ∧ Owned ledger)
      (fun _ => ⟨⟨fun _ => rfl, fun _ => rfl⟩, owned_new limits⟩) ?_ ?_ ?_ ?_
    · intro log ledger now order inv distinct
      obtain ⟨tracked, owned⟩ := inv distinct
      have released := Released.pruneExpired ledger now order
      exact ⟨tracked.released released, owned.released released⟩
    · intro log before sessionNamespace operationId fingerprint waiter outcome after inv began distinct
      obtain ⟨tracked, owned⟩ := inv distinct.dropLast
      have idle := (distinct _ _ _ _ _ _ [] rfl).2
      rw [← tracked.routed] at idle
      exact ⟨tracked.began began, owned.began idle began⟩
    · intro log before now order routedRequest response result key after inv _ finished distinct
      obtain ⟨tracked, owned⟩ := inv distinct.dropLast
      exact ⟨tracked.finished finished, owned.finished finished now order⟩
    · intro log ledger clientId inv distinct
      obtain ⟨tracked, owned⟩ := inv distinct.dropLast
      exact ⟨tracked.disconnected clientId, owned.disconnected clientId⟩
  exact (both distinct).2

end Runs

section Delivery

variable {sessionNamespace : Digest} {operationId : String} {fingerprint : Digest}
variable {outcome : BeginOutcome Ok} {earlier later : List (LedgerEvent Ok)}

/-- Exactly one of the events hands the waiter the response of its operation, given by the owner. -/
def ReceivedOnce (env : LedgerEnv Ok) (waiter : OperationWaiter) (key : OperationKey)
    (earlier later : List (LedgerEvent Ok)) : Prop :=
  ∃ front owner response waiters back,
    later = front ++ .completed owner response (some ⟨waiters, response⟩) :: back ∧
    routing env (earlier ++ front) owner = some key ∧ waiter ∈ waiters ∧ waiters.Nodup ∧
    (∀ event ∈ front, event.delivers waiter = false) ∧ ∀ event ∈ back, event.delivers waiter = false

/-- No event has handed the waiter a response yet; the operation has one owner, whose next
`complete` will. -/
def StillPromised (env : LedgerEnv Ok) (waiter : OperationWaiter) (key : OperationKey)
    (later log : List (LedgerEvent Ok)) (ledger : OperationLedger Ok) : Prop :=
  (∀ event ∈ later, event.delivers waiter = false) ∧
  ∃ owner, routing env log owner = some key ∧ (∀ other, routing env log other = some key → other = owner) ∧
    ∀ now order response, ∃ waiters,
      (ledger.complete env now order owner response).1 = some ⟨waiters, response⟩ ∧
      waiter ∈ waiters ∧ waiters.Nodup

/-- The waiter is neither removed nor used for another request. -/
def Undisturbed (waiter : OperationWaiter) (events : List (LedgerEvent Ok)) : Prop :=
  ∀ event ∈ events, event ≠ .disconnected waiter.clientId ∧
    ∀ sessionNamespace operationId fingerprint outcome,
      event ≠ .began sessionNamespace operationId fingerprint waiter outcome

/-- A response goes to waiters of the operation that the completed request was routed for. -/
def LedgerEvent.Legitimate (env : LedgerEnv Ok) (log : List (LedgerEvent Ok)) : LedgerEvent Ok → Prop
  | .completed owner response (some operation) =>
      operation.response = response ∧ operation.waiters.Nodup ∧
      ∃ key, routing env log owner = some key ∧
        ∀ waiter ∈ operation.waiters, awaiting env log waiter = some key
  | _ => True

/-- Every event of the list is legitimate where it stands. -/
def AllLegitimate (env : LedgerEnv Ok) (log : List (LedgerEvent Ok)) : Prop :=
  ∀ before event after, log = before ++ event :: after → event.Legitimate env before

theorem AllLegitimate.snoc {event : LedgerEvent Ok} (all : AllLegitimate env log)
    (legitimate : event.Legitimate env log) : AllLegitimate env (log ++ [event]) := by
  intro before other after split
  rcases snoc_eq_append_cons split with ⟨-, rfl, rfl⟩ | ⟨front, -, known⟩
  · exact legitimate
  · exact all before other front known

theorem Finished.legitimate {routedRequest : OperationWaiter} {response : ResponsePayload Ok}
    {result : Option (CompletedOperation Ok)} {found : Option OperationKey}
    {before after : OperationLedger Ok} (tracked : Tracked env log before) (indexed : Indexed before)
    (finished : Finished before routedRequest response result found after) :
    (LedgerEvent.completed routedRequest response result).Legitimate env log := by
  cases finished with
  | unknown absent => trivial
  | settled owned closed => trivial
  | @released key fingerprint waiters owned held =>
    refine ⟨rfl, indexed.nodup key waiters ⟨fingerprint, held⟩, key, ?_, fun waiter member => ?_⟩
    · rw [← tracked.routed]
      exact owned
    · rw [← tracked.pending]
      exact (indexed.index waiter key).mpr ⟨waiters, ⟨fingerprint, held⟩, member⟩

theorem LedgerRun.legitimate (run : LedgerRun env limits log ledger) : AllLegitimate env log := by
  induction run with
  | start => intro before event after split; simp at split
  | begin now order sessionNamespace operationId fingerprint waiter _ _ ih => exact ih.snoc trivial
  | complete now order routedRequest response run _ ih =>
    obtain ⟨key, next, finished, -⟩ := complete_finished env _ now order routedRequest response
    exact ih.snoc (finished.legitimate run.tracked run.indexed)
  | disconnect clientId _ ih => exact ih.snoc trivial

theorem Undisturbed.awaiting {event : LedgerEvent Ok} {rest : List (LedgerEvent Ok)}
    (undisturbed : Undisturbed waiter (event :: rest)) :
    CueShell.awaiting env (log ++ [event]) waiter =
      if event.delivers waiter then none else CueShell.awaiting env log waiter := by
  obtain ⟨stays, alone⟩ := undisturbed event (List.mem_cons_self ..)
  rw [awaiting_append]
  match event with
  | .began sessionNamespace operationId fingerprint other outcome =>
    have apart : other ≠ waiter := by
      rintro rfl
      exact alone _ _ _ _ rfl
    simp [LedgerEvent.awaited, LedgerEvent.delivers, apart]
  | .completed owner response (some operation) => simp [LedgerEvent.awaited, LedgerEvent.delivers]
  | .completed owner response none => simp [LedgerEvent.awaited, LedgerEvent.delivers]
  | .disconnected clientId =>
    have apart : waiter.clientId ≠ clientId := by
      rintro rfl
      exact stays rfl
    simp [LedgerEvent.awaited, LedgerEvent.delivers, apart]

theorem LedgerEvent.Legitimate.awaits {event : LedgerEvent Ok} (legitimate : event.Legitimate env log)
    (delivers : event.delivers waiter = true) : ∃ owner response waiters key,
      event = .completed owner response (some ⟨waiters, response⟩) ∧ waiter ∈ waiters ∧
      waiters.Nodup ∧ routing env log owner = some key ∧ awaiting env log waiter = some key := by
  match event with
  | .began _ _ _ _ _ => simp [LedgerEvent.delivers] at delivers
  | .completed _ _ none => simp [LedgerEvent.delivers] at delivers
  | .disconnected _ => simp [LedgerEvent.delivers] at delivers
  | .completed owner response (some ⟨waiters, _⟩) =>
    obtain ⟨rfl, nodup, key, routed, waiting⟩ := legitimate
    have member : waiter ∈ waiters := by simpa [LedgerEvent.delivers] using delivers
    exact ⟨owner, _, waiters, key, rfl, member, nodup, routed, waiting waiter member⟩

/-- A waiter that waits for nothing receives nothing. -/
theorem silent_of_idle (all : AllLegitimate env (log ++ later)) (undisturbed : Undisturbed waiter later)
    (idle : awaiting env log waiter = none) : ∀ event ∈ later, event.delivers waiter = false := by
  induction later generalizing log with
  | nil => simp
  | cons event rest ih =>
    have first : event.delivers waiter = false := by
      by_contra delivers
      obtain ⟨_, _, _, _, -, -, -, -, waits⟩ :=
        (all log event rest rfl).awaits ((Bool.not_eq_false _).mp delivers)
      simp [idle] at waits
    have later' : Undisturbed waiter rest := fun other member =>
      undisturbed other (List.mem_cons_of_mem _ member)
    have all' : AllLegitimate env ((log ++ [event]) ++ rest) := by simpa using all
    have idle' : awaiting env (log ++ [event]) waiter = none := by
      rw [undisturbed.awaiting, first, idle]
      rfl
    exact List.forall_mem_cons.mpr ⟨first, ih all' later' idle'⟩

/-- A waiter that waits for an operation goes on waiting, or receives its response once. -/
theorem received_or_waiting (all : AllLegitimate env (log ++ later))
    (undisturbed : Undisturbed waiter later) (waits : awaiting env log waiter = some key) :
    ((∀ event ∈ later, event.delivers waiter = false) ∧
      awaiting env (log ++ later) waiter = some key) ∨ ReceivedOnce env waiter key log later := by
  induction later generalizing log with
  | nil => exact .inl ⟨by simp, by simpa using waits⟩
  | cons event rest ih =>
    have later' : Undisturbed waiter rest := fun other member =>
      undisturbed other (List.mem_cons_of_mem _ member)
    have all' : AllLegitimate env ((log ++ [event]) ++ rest) := by simpa using all
    cases delivers : event.delivers waiter with
    | true =>
      obtain ⟨owner, response, waiters, target, rfl, member, nodup, routed, awaited⟩ :=
        (all log event rest rfl).awaits delivers
      obtain rfl : key = target := Option.some.inj (waits.symm.trans awaited)
      refine .inr ⟨[], owner, response, waiters, rest, rfl, by simpa using routed, member, nodup,
        by simp, silent_of_idle all' later' ?_⟩
      rw [undisturbed.awaiting, delivers]
      rfl
    | false =>
      have still : awaiting env (log ++ [event]) waiter = some key := by
        rw [undisturbed.awaiting, delivers]
        exact waits
      rcases ih all' later' still with ⟨silent, final⟩ |
        ⟨front, owner, response, waiters, back, split, routed, member, nodup, before, after⟩
      · exact .inl ⟨List.forall_mem_cons.mpr ⟨delivers, silent⟩, by simpa using final⟩
      · exact .inr ⟨event :: front, owner, response, waiters, back, by simp [split],
          by simpa using routed, member, nodup, List.forall_mem_cons.mpr ⟨delivers, before⟩, after⟩

/-- The owner of an operation that somebody waits for completes it for every waiter. -/
theorem stillPromised_of_awaiting (tracked : Tracked env log ledger) (indexed : Indexed ledger)
    (owned : Owned ledger) (silent : ∀ event ∈ later, event.delivers waiter = false)
    (waits : awaiting env log waiter = some key) :
    StillPromised env waiter key later log ledger := by
  rw [← tracked.pending] at waits
  obtain ⟨waiters, lists, member⟩ := (indexed.index waiter key).mp waits
  obtain ⟨owner, owns⟩ := (owned.pending_iff key).mp ⟨waiters, lists⟩
  obtain ⟨fingerprint, held⟩ := lists
  refine ⟨silent, owner, tracked.routed owner ▸ owns, fun other routed => ?_,
    fun now order response => ⟨waiters, ?_, member, indexed.nodup key waiters ⟨fingerprint, held⟩⟩⟩
  · rw [← tracked.routed] at routed
    exact owned.unique other owner key routed owns
  · simp [OperationLedger.complete, owns, held]

/-- The index and the counters agree with the entries, and the counters are within the limits. -/
structure Bookkept (limits : LedgerLimits) (ledger : OperationLedger Ok) : Prop where
  index : ∀ waiter key, ledger.pendingRequests.get waiter = some key ↔
    ∃ waiters, ledger.Lists key waiters ∧ waiter ∈ waiters
  single : ∀ waiter first second waiters others, ledger.Lists first waiters → waiter ∈ waiters →
    ledger.Lists second others → waiter ∈ others → first = second
  responses : ledger.completedResponses = ledger.entries.total holdsResponse
  bytes : ledger.completedBytes = ledger.entries.total recordedBytes
  responses_le : ledger.completedResponses ≤ limits.responseCapacity
  bytes_le : ledger.completedBytes ≤ limits.maxCompletedBytes

theorem Indexed.bookkept (indexed : Indexed ledger) (accounts : Accounts limits ledger) :
    Bookkept limits ledger where
  index := indexed.index
  single waiter first second waiters others one inOne two inTwo := by
    have here := (indexed.index waiter first).mpr ⟨waiters, one, inOne⟩
    have there := (indexed.index waiter second).mpr ⟨others, two, inTwo⟩
    exact Option.some.inj (here.symm.trans there)
  responses := accounts.balanced.responses
  bytes := accounts.balanced.bytes
  responses_le := accounts.limits_eq ▸ accounts.within.responses
  bytes_le := accounts.limits_eq ▸ accounts.within.bytes

/-- After every operation the redundant collections agree, and a waiter that was promised a response
and not removed receives it from exactly one `complete`, given by the owner of its operation. -/
theorem LedgerRun.bookkeeping_and_delivery (run : LedgerRun env limits log ledger)
    (adequate : limits.Adequate) (distinct : DistinctWaiters env log) :
    Bookkept limits ledger ∧
    ∀ earlier sessionNamespace operationId fingerprint waiter outcome later,
      log = earlier ++ .began sessionNamespace operationId fingerprint waiter outcome :: later →
      outcome.promises = true → Undisturbed waiter later →
      let key := env.operationKey sessionNamespace operationId
      ReceivedOnce env waiter key
          (earlier ++ [.began sessionNamespace operationId fingerprint waiter outcome]) later ∨
        StillPromised env waiter key later log ledger := by
  refine ⟨run.indexed.bookkept (run.accounts adequate), ?_⟩
  intro earlier sessionNamespace operationId fingerprint waiter outcome later split promises undisturbed key
  have waits : awaiting env
      (earlier ++ [.began sessionNamespace operationId fingerprint waiter outcome]) waiter = some key := by
    simp [awaiting_append, LedgerEvent.awaited, promises, key]
  have joined : log =
      (earlier ++ [.began sessionNamespace operationId fingerprint waiter outcome]) ++ later := by
    simp [split]
  rcases received_or_waiting (joined ▸ run.legitimate) undisturbed waits with ⟨silent, final⟩ | received
  · rw [← joined] at final
    exact .inr (stillPromised_of_awaiting run.tracked run.indexed (run.owned distinct) silent final)
  · exact .inl received

/-- The first caller and a retry of it both receive the response. -/
theorem LedgerRun.bookkeeping_and_delivery_retry :
    let namespace' : Digest := Vector.replicate 32 0
    let payload : Digest := Vector.replicate 32 1
    let key := sampleEnv.operationKey namespace' "abc"
    let first := ((OperationLedger.new LedgerLimits.default).begin sampleEnv 0 [] namespace' "abc"
      payload ⟨1, 1⟩).2
    let second := (first.begin sampleEnv 5 [key] namespace' "abc" payload ⟨2, 1⟩).2
    let last := (second.complete sampleEnv 9 [key] ⟨1, 1⟩ (.ok ())).2
    last.completedBytes = 17 ∧ Bookkept LedgerLimits.default last ∧
      ReceivedOnce sampleEnv ⟨2, 1⟩ key
        [.began namespace' "abc" payload ⟨1, 1⟩ .route, .began namespace' "abc" payload ⟨2, 1⟩ .wait]
        [.completed ⟨1, 1⟩ (.ok ()) (some ⟨[⟨1, 1⟩, ⟨2, 1⟩], .ok ()⟩)] := by
  intro namespace' payload key first second last
  have routed : ((OperationLedger.new LedgerLimits.default).begin sampleEnv 0 [] namespace' "abc"
    payload ⟨1, 1⟩).1 = .route := by decide
  have waits : (first.begin sampleEnv 5 [key] namespace' "abc" payload ⟨2, 1⟩).1 = .wait := by decide
  have result : (second.complete sampleEnv 9 [key] ⟨1, 1⟩ (.ok ())).1 =
    some ⟨[⟨1, 1⟩, ⟨2, 1⟩], .ok ()⟩ := by decide
  have firstKeys : first.entries.keys = {key} := by decide
  have secondKeys : second.entries.keys = {key} := by decide
  have run : LedgerRun sampleEnv LedgerLimits.default _ last :=
    .complete 9 [key] ⟨1, 1⟩ (.ok ())
      (.begin 5 [key] namespace' "abc" payload ⟨2, 1⟩
        (.begin 0 [] namespace' "abc" payload ⟨1, 1⟩ .start Table.enumerates_empty)
        ⟨List.nodup_singleton _, fun other => by simp [first, firstKeys]⟩)
      ⟨List.nodup_singleton _, fun other => by simp [second, secondKeys]⟩
  rw [routed, waits, result] at run
  have distinct : DistinctWaiters sampleEnv [] := by
    intro before _ _ _ _ _ _ split
    simp at split
  have idle : ∀ other : OperationWaiter, awaiting sampleEnv [] other = none ∧
    routing sampleEnv [] other = none := fun _ => ⟨rfl, rfl⟩
  have distinctFirst := distinct.snoc (.began namespace' "abc" payload ⟨1, 1⟩ .route)
    fun _ _ _ other _ _ => idle other
  have distinctSecond := distinctFirst.snoc (.began namespace' "abc" payload ⟨2, 1⟩ .wait) (by
    rintro _ _ _ other _ equal
    obtain ⟨-, -, -, rfl, -⟩ := LedgerEvent.began.inj equal
    decide)
  have distinctLast := distinctSecond.snoc
    (.completed ⟨1, 1⟩ (.ok ()) (some ⟨[⟨1, 1⟩, ⟨2, 1⟩], .ok ()⟩)) (by simp)
  obtain ⟨bookkept, delivery⟩ := run.bookkeeping_and_delivery LedgerLimits.adequate_default distinctLast
  refine ⟨by decide, bookkept,
    (delivery [_] namespace' "abc" payload ⟨2, 1⟩ .wait [_] rfl rfl ?_).resolve_right ?_⟩
  · simp [Undisturbed]
  · rintro ⟨silent, -⟩
    exact absurd (silent _ (List.mem_singleton_self _)) (by decide)

end Delivery

end CueShell
