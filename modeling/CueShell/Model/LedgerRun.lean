import CueShell.Model.OperationLedger

/-! # Runs of the operation ledger

A run is any interleaving of `begin`, `complete` and client removals, at any times. Its log keeps
what was asked and what was answered; who waits for which operation, and who owns which, is read off
the log alone.
-/

namespace CueShell

variable {Ok : Type}

inductive LedgerEvent (Ok : Type) where
  | began (sessionNamespace : Digest) (operationId : String) (fingerprint : Digest)
      (waiter : OperationWaiter) (outcome : BeginOutcome Ok)
  | completed (routedRequest : OperationWaiter) (response : ResponsePayload Ok)
      (result : Option (CompletedOperation Ok))
  | disconnected (clientId : UInt64)

/-- The ledgers reachable under some limits, with the log that leads to them. -/
inductive LedgerRun (env : LedgerEnv Ok) (limits : LedgerLimits) :
    List (LedgerEvent Ok) → OperationLedger Ok → Prop
  | start : LedgerRun env limits [] (.new limits)
  | begin {log : List (LedgerEvent Ok)} {ledger : OperationLedger Ok} (now : ℕ)
      (order : List OperationKey) (sessionNamespace : Digest) (operationId : String)
      (fingerprint : Digest) (waiter : OperationWaiter) :
      LedgerRun env limits log ledger → ledger.entries.Enumerates order →
      LedgerRun env limits
        (log ++ [.began sessionNamespace operationId fingerprint waiter
          (ledger.begin env now order sessionNamespace operationId fingerprint waiter).1])
        (ledger.begin env now order sessionNamespace operationId fingerprint waiter).2
  | complete {log : List (LedgerEvent Ok)} {ledger : OperationLedger Ok} (now : ℕ)
      (order : List OperationKey) (routedRequest : OperationWaiter) (response : ResponsePayload Ok) :
      LedgerRun env limits log ledger → ledger.entries.Enumerates order →
      LedgerRun env limits
        (log ++ [.completed routedRequest response
          (ledger.complete env now order routedRequest response).1])
        (ledger.complete env now order routedRequest response).2
  | disconnect {log : List (LedgerEvent Ok)} {ledger : OperationLedger Ok} (clientId : UInt64) :
      LedgerRun env limits log ledger →
      LedgerRun env limits (log ++ [.disconnected clientId]) (ledger.removeWaitersForClient clientId)

/-- Whether the answer promises a response from a later `complete`. -/
def BeginOutcome.promises : BeginOutcome Ok → Bool
  | .route | .wait => true
  | .respond _ => false

def BeginOutcome.routes : BeginOutcome Ok → Bool
  | .route => true
  | .wait | .respond _ => false

namespace LedgerEvent

/-- The event hands a response to the waiter. -/
def delivers (waiter : OperationWaiter) : LedgerEvent Ok → Bool
  | .completed _ _ (some operation) => waiter ∈ operation.waiters
  | _ => false

/-- The operation a waiter waits for after one more event. -/
def awaited (env : LedgerEnv Ok) (waiter : OperationWaiter) (current : Option OperationKey) :
    LedgerEvent Ok → Option OperationKey
  | .began sessionNamespace operationId _ other outcome =>
      if other = waiter ∧ outcome.promises then some (env.operationKey sessionNamespace operationId)
      else current
  | .completed _ _ (some operation) => if waiter ∈ operation.waiters then none else current
  | .completed _ _ none => current
  | .disconnected clientId => if waiter.clientId = clientId then none else current

/-- The operation a request has been routed for after one more event. -/
def routed (env : LedgerEnv Ok) (waiter : OperationWaiter) (current : Option OperationKey) :
    LedgerEvent Ok → Option OperationKey
  | .began sessionNamespace operationId _ other outcome =>
      if other = waiter ∧ outcome.routes then some (env.operationKey sessionNamespace operationId)
      else current
  | .completed other _ _ => if other = waiter then none else current
  | .disconnected _ => current

end LedgerEvent

/-- The operation a waiter was promised a response of, and has neither received it nor been
removed. -/
def awaiting (env : LedgerEnv Ok) (log : List (LedgerEvent Ok)) (waiter : OperationWaiter) :
    Option OperationKey :=
  log.foldl (LedgerEvent.awaited env waiter) none

/-- The operation a request was routed for, if it has not been completed since. -/
def routing (env : LedgerEnv Ok) (log : List (LedgerEvent Ok)) (waiter : OperationWaiter) :
    Option OperationKey :=
  log.foldl (LedgerEvent.routed env waiter) none

/-- No request begins while an earlier one with the same client and request id is outstanding. -/
def DistinctWaiters (env : LedgerEnv Ok) (log : List (LedgerEvent Ok)) : Prop :=
  ∀ before sessionNamespace operationId fingerprint waiter outcome after,
    log = before ++ .began sessionNamespace operationId fingerprint waiter outcome :: after →
    awaiting env before waiter = none ∧ routing env before waiter = none

end CueShell
