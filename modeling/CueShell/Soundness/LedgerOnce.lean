import CueShell.Proofs.LedgerSteps

/-! # At-most-once execution

An operation that has been routed stays registered with its fingerprint for the lifetime of the
ledger, whatever is completed, expired or evicted and whoever disconnects. A later `begin` for it is
therefore never routed.
-/

namespace CueShell

variable {Ok : Type} {env : LedgerEnv Ok} {limits : LedgerLimits}
variable {log : List (LedgerEvent Ok)} {ledger before after : OperationLedger Ok}

/-- The response was given by the owner of the operation, to whom it had been routed. -/
def Answered (env : LedgerEnv Ok) (log : List (LedgerEvent Ok)) (key : OperationKey)
    (response : ResponsePayload Ok) : Prop :=
  ∃ sessionNamespace operationId fingerprint owner waiters,
    env.operationKey sessionNamespace operationId = key ∧
    LedgerEvent.began sessionNamespace operationId fingerprint owner .route ∈ log ∧
    LedgerEvent.completed owner response (some ⟨waiters, response⟩) ∈ log

theorem Answered.append {key : OperationKey} {response : ResponsePayload Ok}
    (answered : Answered env log key response) (more : List (LedgerEvent Ok)) :
    Answered env (log ++ more) key response := by
  obtain ⟨sessionNamespace, operationId, fingerprint, owner, waiters, same, began, completed⟩ := answered
  exact ⟨sessionNamespace, operationId, fingerprint, owner, waiters, same,
    List.mem_append_left _ began, List.mem_append_left _ completed⟩

/-- The entries of a ledger agree with its log. -/
structure Registered (env : LedgerEnv Ok) (log : List (LedgerEvent Ok))
    (ledger : OperationLedger Ok) : Prop where
  identity : ∀ sessionNamespace operationId fingerprint waiter,
    LedgerEvent.began sessionNamespace operationId fingerprint waiter .route ∈ log →
      (ledger.entries.get (env.operationKey sessionNamespace operationId)).map
        OperationEntry.fingerprint = some fingerprint
  owner : ∀ waiter key, ledger.routedRequests.get waiter = some key →
    ∃ sessionNamespace operationId fingerprint,
      env.operationKey sessionNamespace operationId = key ∧
      LedgerEvent.began sessionNamespace operationId fingerprint waiter .route ∈ log
  recorded : ∀ key fingerprint response time bytes,
    ledger.entries.get key = some ⟨fingerprint, .completed response time bytes⟩ →
      Answered env log key response

namespace Registered

theorem released (registered : Registered env log before) (released : Released before after) :
    Registered env log after where
  identity sessionNamespace operationId fingerprint waiter routed := by
    rw [released.fingerprint]
    exact registered.identity sessionNamespace operationId fingerprint waiter routed
  owner waiter key owned := registered.owner waiter key (released.routed ▸ owned)
  recorded key fingerprint response time bytes held :=
    registered.recorded key fingerprint response time bytes (released.completed_of held)

/-- A step that routes nothing, keeps every identity and records only what has been answered. -/
theorem step (registered : Registered env log before) {event : LedgerEvent Ok}
    (silent : ∀ sessionNamespace operationId fingerprint waiter,
      event ≠ .began sessionNamespace operationId fingerprint waiter .route)
    (identity : ∀ key, (after.entries.get key).map OperationEntry.fingerprint =
      (before.entries.get key).map OperationEntry.fingerprint)
    (owner : ∀ waiter key, after.routedRequests.get waiter = some key →
      before.routedRequests.get waiter = some key)
    (recorded : ∀ key fingerprint response time bytes,
      after.entries.get key = some ⟨fingerprint, .completed response time bytes⟩ →
        before.entries.get key = some ⟨fingerprint, .completed response time bytes⟩ ∨
          Answered env (log ++ [event]) key response) :
    Registered env (log ++ [event]) after where
  identity sessionNamespace operationId fingerprint waiter routed := by
    rcases List.mem_append.mp routed with old | new
    · rw [identity]
      exact registered.identity sessionNamespace operationId fingerprint waiter old
    · exact (silent _ _ _ _ (List.mem_singleton.mp new).symm).elim
  owner waiter key owned := by
    obtain ⟨sessionNamespace, operationId, fingerprint, same, began⟩ :=
      registered.owner waiter key (owner waiter key owned)
    exact ⟨sessionNamespace, operationId, fingerprint, same, List.mem_append_left _ began⟩
  recorded key fingerprint response time bytes held := by
    rcases recorded key fingerprint response time bytes held with old | new
    · exact (registered.recorded key fingerprint response time bytes old).append _
    · exact new

theorem began {sessionNamespace : Digest} {operationId : String} {fingerprint : Digest}
    {waiter : OperationWaiter} {outcome : BeginOutcome Ok} (registered : Registered env log before)
    (began : Began before (env.operationKey sessionNamespace operationId) fingerprint waiter outcome
      after) :
    Registered env (log ++ [.began sessionNamespace operationId fingerprint waiter outcome]) after := by
  cases began with
  | rejected code message =>
    exact registered.step (by simp) (fun _ => rfl) (fun _ _ => id) (fun _ _ _ _ _ => .inl)
  | replayed held =>
    exact registered.step (by simp) (fun _ => rfl) (fun _ _ => id) (fun _ _ _ _ _ => .inl)
  | repeated same listed =>
    exact registered.step (by simp) (fun _ => rfl) (fun _ _ => id) (fun _ _ _ _ _ => .inl)
  | joined fresh held =>
    refine registered.step (by simp) (fun key => ?_) (fun _ _ => id) (fun key _ _ _ _ found => ?_)
    · rw [Table.get_modify]
      split_ifs with same
      · simp [same, held]
      · rfl
    · rw [Table.get_modify] at found
      split_ifs at found with same
      · simp [held] at found
      · exact .inl found
  | routed fresh absent room =>
    refine ⟨fun namespace' id' fingerprint' waiter' routed => ?_, fun waiter' key owned => ?_,
      fun key fingerprint' response time bytes found => ?_⟩
    · rw [Table.get_insert]
      rcases List.mem_append.mp routed with old | new
      · have known := registered.identity _ _ _ _ old
        rw [if_neg]
        · exact known
        · intro same
          simp [same, absent] at known
      · simp only [List.mem_singleton, LedgerEvent.began.injEq] at new
        obtain ⟨rfl, rfl, rfl, -, -⟩ := new
        simp
    · rw [Table.get_insert] at owned
      split_ifs at owned with same
      · obtain rfl := Option.some.inj owned
        exact ⟨sessionNamespace, operationId, fingerprint, rfl, by simp [same]⟩
      · obtain ⟨namespace', id', fingerprint', known, began⟩ := registered.owner waiter' key owned
        exact ⟨namespace', id', fingerprint', known, List.mem_append_left _ began⟩
    · rw [Table.get_insert] at found
      split_ifs at found with same
      · simp at found
      · exact (registered.recorded _ _ _ _ _ found).append _

theorem finished {routedRequest : OperationWaiter} {response : ResponsePayload Ok}
    {result : Option (CompletedOperation Ok)} {key : Option OperationKey} {now : ℕ}
    {order : List OperationKey} (registered : Registered env log before)
    (finished : Finished before routedRequest response result key after) :
    Registered env (log ++ [.completed routedRequest response result])
      (store env now order response key after) := by
  have erased : ∀ waiter key, (before.routedRequests.erase routedRequest).get waiter = some key →
      before.routedRequests.get waiter = some key := by
    intro waiter key owned
    rw [Table.get_erase] at owned
    split_ifs at owned
    exact owned
  cases finished with
  | unknown absent =>
    exact registered.step (by simp) (fun _ => rfl) (fun _ _ => id) (fun _ _ _ _ _ => .inl)
  | settled owned closed =>
    exact registered.step (by simp) (fun _ => rfl) erased (fun _ _ _ _ _ => .inl)
  | @released key fingerprint waiters owned held =>
    obtain ⟨state, responses, bytes, shape, released⟩ :=
      recordResponse_released env
        { before with
          routedRequests := before.routedRequests.erase routedRequest
          pendingRequests := waiters.foldl Table.erase before.pendingRequests } now order key response
    refine Registered.released ?_ released
    refine registered.step (by simp) (fun other => ?_) erased fun other _ _ _ _ found => ?_
    · rw [Table.get_modify]
      split_ifs with same
      · simp [same, held]
      · rfl
    · rw [Table.get_modify] at found
      split_ifs at found with same
      · obtain ⟨namespace', id', fingerprint', known, began⟩ := registered.owner _ _ owned
        refine .inr ⟨namespace', id', fingerprint', routedRequest, waiters, known.trans same.symm,
          List.mem_append_left _ began, ?_⟩
        rcases shape with rfl | ⟨size, rfl⟩
        · simp [held] at found
        · simp only [held, Option.map_some, Option.some.injEq, OperationEntry.mk.injEq,
            OperationState.completed.injEq] at found
          simp [found.2.1]
      · exact .inl found

theorem disconnected (registered : Registered env log ledger) (clientId : UInt64) :
    Registered env (log ++ [.disconnected clientId]) (ledger.removeWaitersForClient clientId) := by
  refine registered.step (by simp) (fun key => ?_) (fun _ _ => id) fun key fingerprint response time bytes found => ?_
  · cases held : ledger.entries.get key with
    | none => simp [OperationLedger.removeWaitersForClient, held]
    | some entry =>
      obtain ⟨fingerprint, state⟩ := entry
      cases state <;> simp [OperationLedger.removeWaitersForClient, held]
  · cases held : ledger.entries.get key with
    | none => simp [OperationLedger.removeWaitersForClient, held] at found
    | some entry =>
      obtain ⟨stored, state⟩ := entry
      cases state with
      | pending waiters => simp [OperationLedger.removeWaitersForClient, held] at found
      | completed response' time' bytes' =>
        exact .inl (by simpa [OperationLedger.removeWaitersForClient, held] using found)
      | tombstone => simp [OperationLedger.removeWaitersForClient, held] at found

end Registered

theorem LedgerRun.registered (run : LedgerRun env limits log ledger) : Registered env log ledger :=
  run.preserves (Registered env) ⟨by simp, by simp [OperationLedger.new], by simp [OperationLedger.new]⟩
    (fun _ ledger now order registered => registered.released (.pruneExpired ledger now order))
    (fun _ _ _ _ _ _ _ _ registered began => registered.began began)
    (fun _ _ _ _ _ _ _ _ _ registered _ finished => registered.finished finished)
    (fun _ _ clientId registered => registered.disconnected clientId)

/-- What a `begin` may answer for an operation that was routed with the payload `fingerprint`. -/
structure LateAnswer (env : LedgerEnv Ok) (log : List (LedgerEvent Ok)) (key : OperationKey)
    (fingerprint later : Digest) (outcome : BeginOutcome Ok) : Prop where
  once : outcome ≠ .route
  conflict : later ≠ fingerprint → ∃ message, outcome = .respond (.err "INVALID_REQUEST" message)
  same : later = fingerprint → outcome = .wait ∨
    (∃ response, outcome = .respond response ∧ Answered env log key response) ∨
    ∃ code message, outcome = .respond (.err code message)

theorem LateAnswer.append {key : OperationKey} {fingerprint later : Digest} {outcome : BeginOutcome Ok}
    (late : LateAnswer env log key fingerprint later outcome) (more : List (LedgerEvent Ok)) :
    LateAnswer env (log ++ more) key fingerprint later outcome where
  once := late.once
  conflict := late.conflict
  same equal := (late.same equal).imp id fun rest => rest.imp
    (fun ⟨response, responds, answered⟩ => ⟨response, responds, answered.append more⟩) id

theorem Registered.lateAnswer (registered : Registered env log ledger) {sessionNamespace : Digest}
    {operationId : String} {fingerprint later : Digest} {waiter : OperationWaiter}
    (known : (ledger.entries.get (env.operationKey sessionNamespace operationId)).map
      OperationEntry.fingerprint = some fingerprint) :
    LateAnswer env log (env.operationKey sessionNamespace operationId) fingerprint later
      (ledger.beginPruned env sessionNamespace operationId later waiter).1 := by
  obtain ⟨entry, found, rfl⟩ := Option.map_eq_some_iff.mp known
  have began := beginPruned_began env ledger sessionNamespace operationId later waiter
  refine ⟨fun routes => ?_, fun differs => beginPruned_conflict found (Ne.symm differs),
    fun equal => ?_⟩
  · generalize (ledger.beginPruned env sessionNamespace operationId later waiter).2 = next at began
    rw [routes] at began
    cases began with
    | routed fresh absent room => simp [absent] at found
  · generalize (ledger.beginPruned env sessionNamespace operationId later waiter).1 = outcome at began
    generalize (ledger.beginPruned env sessionNamespace operationId later waiter).2 = next at began
    cases began with
    | rejected code message => exact .inr (.inr ⟨code, message, rfl⟩)
    | replayed held => exact .inr (.inl ⟨_, rfl, registered.recorded _ _ _ _ _ held⟩)
    | repeated same listed => exact .inl rfl
    | joined fresh held => exact .inl rfl
    | routed fresh absent room => simp [absent] at found

/-- After an operation has been routed, no later `begin` for it is routed: the same payload waits,
is answered from the record or is rejected, another payload is always rejected. -/
theorem LedgerRun.at_most_once (run : LedgerRun env limits log ledger)
    {earlier later : List (LedgerEvent Ok)} {sessionNamespace : Digest} {operationId : String}
    {fingerprint : Digest} {owner : OperationWaiter}
    (split : log =
      earlier ++ .began sessionNamespace operationId fingerprint owner .route :: later) :
    ∀ fingerprint' waiter outcome,
      LedgerEvent.began sessionNamespace operationId fingerprint' waiter outcome ∈ later →
      LateAnswer env log (env.operationKey sessionNamespace operationId) fingerprint fingerprint'
        outcome := by
  induction run generalizing later with
  | start => simp at split
  | @begin log ledger now order namespace' id' fingerprint' waiter run enumerates ih =>
    rcases snoc_eq_append_cons split with ⟨rfl, -, -⟩ | ⟨front, rfl, known⟩
    · simp
    · intro later' waiter' outcome member
      rcases List.mem_append.mp member with old | new
      · exact (ih known later' waiter' outcome old).append _
      · simp only [List.mem_singleton, LedgerEvent.began.injEq] at new
        obtain ⟨rfl, rfl, rfl, rfl, rfl⟩ := new
        have registered := run.registered.released (.pruneExpired _ now order)
        refine LateAnswer.append (registered.lateAnswer ?_) _
        exact registered.identity _ _ _ owner (by rw [known]; simp)
  | complete now order routedRequest response run enumerates ih =>
    rcases snoc_eq_append_cons split with ⟨rfl, -, -⟩ | ⟨front, rfl, known⟩
    · simp
    · intro later' waiter' outcome member
      have old : LedgerEvent.began sessionNamespace operationId later' waiter' outcome ∈ front := by
        simpa using member
      exact (ih known later' waiter' outcome old).append _
  | disconnect clientId run ih =>
    rcases snoc_eq_append_cons split with ⟨rfl, -, -⟩ | ⟨front, rfl, known⟩
    · simp
    · intro later' waiter' outcome member
      have old : LedgerEvent.began sessionNamespace operationId later' waiter' outcome ∈ front := by
        simpa using member
      exact (ih known later' waiter' outcome old).append _

/-- A client that sends another payload under the id of a running operation is rejected. -/
theorem LedgerRun.at_most_once_conflict :
    let namespace' : Digest := Vector.replicate 32 0
    let payload : Digest := Vector.replicate 32 1
    let other : Digest := Vector.replicate 32 2
    let ledger := OperationLedger.new LedgerLimits.default
    let next := (ledger.begin sampleEnv 0 [] namespace' "abc" payload ⟨1, 1⟩).2
    let outcome := (next.begin sampleEnv 5 [sampleEnv.operationKey namespace' "abc"] namespace' "abc"
      other ⟨2, 1⟩).1
    ∃ message, outcome = .respond (.err "INVALID_REQUEST" message) := by
  intro namespace' payload other ledger next outcome
  have routed : (ledger.begin sampleEnv 0 [] namespace' "abc" payload ⟨1, 1⟩).1 = .route := by decide
  have keys : next.entries.keys = {sampleEnv.operationKey namespace' "abc"} := by decide
  have first : LedgerRun sampleEnv LedgerLimits.default _ next :=
    .begin 0 [] namespace' "abc" payload ⟨1, 1⟩ .start Table.enumerates_empty
  have second := LedgerRun.begin 5 [sampleEnv.operationKey namespace' "abc"] namespace' "abc" other
    ⟨2, 1⟩ first ⟨List.nodup_singleton _, fun key => by simp [keys]⟩
  rw [routed] at second
  have split : [] ++ [LedgerEvent.began namespace' "abc" payload ⟨1, 1⟩ .route] ++
      [.began namespace' "abc" other ⟨2, 1⟩ outcome] =
      [] ++ .began namespace' "abc" payload ⟨1, 1⟩ .route ::
        [.began namespace' "abc" other ⟨2, 1⟩ outcome] := rfl
  exact (second.at_most_once split other ⟨2, 1⟩ outcome (List.mem_singleton_self _)).conflict
    (by decide)

end CueShell
