import CueShell.ToMathlib.Table
import CueShell.ToMathlib.Text
import Mathlib.Data.List.MinMax

/-! # The operation ledger

The idempotency ledger of the gateway. Hashes, the JSON encoding and the debug form of a string come
from libraries and are parameters. Every operation takes the current time and the order in which the
hash map of entries is walked, so both are arbitrary. Counters are `usize` and saturate.
-/

namespace CueShell

abbrev Digest := Vector UInt8 32

/-- A response to a client; the ledger does not look into successful payloads. -/
inductive ResponsePayload (Ok : Type) where
  | ok (payload : Ok)
  | err (code message : String)
deriving DecidableEq, Repr

structure OperationWaiter where
  clientId : UInt64
  requestId : UInt32
deriving DecidableEq, Repr

inductive BeginOutcome (Ok : Type) where
  /-- This caller owns the first execution and must route the request. -/
  | route
  /-- An identical execution is already pending; its response will be fanned out. -/
  | wait
  /-- Return a cached response or a deterministic ledger rejection immediately. -/
  | respond (response : ResponsePayload Ok)
deriving DecidableEq, Repr

structure CompletedOperation (Ok : Type) where
  waiters : List OperationWaiter
  response : ResponsePayload Ok
deriving DecidableEq, Repr

structure LedgerLimits where
  identityCapacity : ℕ
  responseCapacity : ℕ
  completedTtl : ℕ
  maxWaiters : ℕ
  maxResponseBytes : ℕ
  maxCompletedBytes : ℕ
deriving DecidableEq, Repr

/-- Nanoseconds in a second. -/
def secondNanos : ℕ := 1000000000

def LedgerLimits.default : LedgerLimits where
  identityCapacity := 65536
  responseCapacity := 1024
  completedTtl := 15 * 60 * secondNanos
  maxWaiters := 4
  maxResponseBytes := 8 * 1024 * 1024
  maxCompletedBytes := 64 * 1024 * 1024

structure OperationKey where
  sessionNamespace : Digest
  operationIdHash : Digest
deriving DecidableEq, Repr

inductive OperationState (Ok : Type) where
  | pending (waiters : List OperationWaiter)
  | completed (response : ResponsePayload Ok) (completedAt responseBytes : ℕ)
  /-- The response is gone, the identity stays. -/
  | tombstone
deriving DecidableEq, Repr

structure OperationEntry (Ok : Type) where
  fingerprint : Digest
  state : OperationState Ok
deriving DecidableEq, Repr

structure OperationLedger (Ok : Type) where
  entries : Table OperationKey (OperationEntry Ok)
  /-- Only the first routed request can complete a pending operation. -/
  routedRequests : Table OperationWaiter OperationKey
  /-- Guards against a client reusing one request id for two pending operations. -/
  pendingRequests : Table OperationWaiter OperationKey
  completedResponses : ℕ
  completedBytes : ℕ
  limits : LedgerLimits

/-- The library functions the ledger relies on. -/
structure LedgerEnv (Ok : Type) where
  blake3 : String → Digest
  serializedResponseSize : ResponsePayload Ok → ℕ
  /-- The `{:?}` form of a string. -/
  debugFormat : String → String

def usizeMax : ℕ := 2 ^ 64 - 1

def saturatingAdd (left right : ℕ) : ℕ := min (left + right) usizeMax

/-- The Unicode general category `Cc`. -/
def isControl (c : Char) : Bool := c.toNat ≤ 0x1F || (0x7F ≤ c.toNat && c.toNat ≤ 0x9F)

def maxOperationIdBytes : ℕ := 128

def invalidOperationId (operationId : String) : Option String :=
  if operationId = "" then some "operation_id must not be empty"
  else if maxOperationIdBytes < Text.byteLength operationId.toList then
    some ("operation_id must be at most " ++ toString maxOperationIdBytes ++ " UTF-8 bytes")
  else if Text.trim operationId.toList ≠ operationId.toList ∨ operationId.toList.any isControl then
    some "operation_id must not contain surrounding whitespace or control characters"
  else none

def LedgerEnv.operationKey {Ok : Type} (env : LedgerEnv Ok) (sessionNamespace : Digest)
    (operationId : String) : OperationKey :=
  ⟨sessionNamespace, env.blake3 operationId⟩

namespace OperationLedger

variable {Ok : Type}

def new (limits : LedgerLimits) : OperationLedger Ok where
  entries := .empty
  routedRequests := .empty
  pendingRequests := .empty
  completedResponses := 0
  completedBytes := 0
  limits := limits

def expireCompleted (ledger : OperationLedger Ok) (key : OperationKey) : OperationLedger Ok :=
  match ledger.entries.get key with
  | some ⟨_, .completed _ _ responseBytes⟩ =>
      { ledger with
        completedBytes := ledger.completedBytes - responseBytes
        completedResponses := ledger.completedResponses - 1
        entries := ledger.entries.modify key fun entry => { entry with state := .tombstone } }
  | _ => ledger

/-- Whether the entry holds a response whose time has run out. -/
def isExpired (limits : LedgerLimits) (now : ℕ) : Option (OperationEntry Ok) → Bool
  | some ⟨_, .completed _ completedAt _⟩ => limits.completedTtl ≤ now - completedAt
  | _ => false

def pruneExpired (ledger : OperationLedger Ok) (now : ℕ) (order : List OperationKey) :
    OperationLedger Ok :=
  (order.filter fun key => isExpired ledger.limits now (ledger.entries.get key)).foldl
    expireCompleted ledger

/-- The completion time of an entry that holds a response. -/
def completedAt : Option (OperationEntry Ok) → Option ℕ
  | some ⟨_, .completed _ completedAt _⟩ => some completedAt
  | _ => none

/-- The oldest response other than the protected one; the first of several equally old ones. -/
def oldestCompleted (ledger : OperationLedger Ok) (shielded : OperationKey)
    (order : List OperationKey) : Option OperationKey :=
  let candidates := (order.filter (shielded ≠ ·)).filterMap fun key =>
    (completedAt (ledger.entries.get key)).map fun time => (key, time)
  (candidates.argmin Prod.snd).map Prod.fst

def overLimits (ledger : OperationLedger Ok) : Bool :=
  ledger.limits.responseCapacity < ledger.completedResponses ||
    ledger.limits.maxCompletedBytes < ledger.completedBytes

/-- The eviction loop of `complete`; every round releases a response. -/
def evictLoop (shielded : OperationKey) (order : List OperationKey) : ℕ → OperationLedger Ok →
    OperationLedger Ok
  | 0, ledger => ledger
  | fuel + 1, ledger =>
      if ledger.overLimits then
        match ledger.oldestCompleted shielded order with
        | some key => evictLoop shielded order fuel (ledger.expireCompleted key)
        | none => ledger
      else ledger

def rejection (code message : String) : BeginOutcome Ok := .respond (.err code message)

/-- What an existing entry answers to the same payload. -/
def joinEntry (env : LedgerEnv Ok) (ledger : OperationLedger Ok) (key : OperationKey)
    (operationId : String) (waiter : OperationWaiter) (state : OperationState Ok) :
    BeginOutcome Ok × OperationLedger Ok :=
  match state with
  | .pending waiters =>
      if ledger.limits.maxWaiters ≤ waiters.length then
        (rejection "INVALID_STATE" ("operation_id " ++ env.debugFormat operationId ++
          " has too many pending retry waiters"), ledger)
      else
        (.wait, { ledger with
          entries := ledger.entries.modify key fun entry =>
            { entry with state := .pending (waiters ++ [waiter]) }
          pendingRequests := ledger.pendingRequests.insert waiter key })
  | .completed response _ _ => (.respond response, ledger)
  | .tombstone =>
      (rejection "INVALID_STATE" ("operation_id " ++ env.debugFormat operationId ++
        " already completed, but its replay response expired"), ledger)

/-- The body of `begin` after expired responses have been released. -/
def beginPruned (env : LedgerEnv Ok) (ledger : OperationLedger Ok) (sessionNamespace : Digest)
    (operationId : String) (fingerprint : Digest) (waiter : OperationWaiter) :
    BeginOutcome Ok × OperationLedger Ok :=
  match invalidOperationId operationId with
  | some message => (rejection "INVALID_REQUEST" message, ledger)
  | none =>
      let key := env.operationKey sessionNamespace operationId
      let entry := ledger.entries.get key
      if entry.any fun entry => entry.fingerprint ≠ fingerprint then
        (rejection "INVALID_REQUEST" ("operation_id " ++ env.debugFormat operationId ++
          " was reused with a different payload"), ledger)
      else
        match ledger.pendingRequests.get waiter, entry with
        | some existing, _ =>
            if existing = key then (.wait, ledger)
            else (rejection "INVALID_REQUEST" ("request " ++ toString waiter.requestId.toNat ++
              " is already waiting on another operation"), ledger)
        | none, some entry => joinEntry env ledger key operationId waiter entry.state
        | none, none =>
            if ledger.limits.identityCapacity ≤ ledger.entries.size then
              (rejection "INVALID_STATE"
                "operation identity ledger is saturated; refusing a new side effect", ledger)
            else
              (.route, { ledger with
                entries := ledger.entries.insert key ⟨fingerprint, .pending [waiter]⟩
                routedRequests := ledger.routedRequests.insert waiter key
                pendingRequests := ledger.pendingRequests.insert waiter key })

def begin (env : LedgerEnv Ok) (ledger : OperationLedger Ok) (now : ℕ) (order : List OperationKey)
    (sessionNamespace : Digest) (operationId : String) (fingerprint : Digest)
    (waiter : OperationWaiter) : BeginOutcome Ok × OperationLedger Ok :=
  (ledger.pruneExpired now order).beginPruned env sessionNamespace operationId fingerprint waiter

/-- Turn a pending operation into a completed one and count its response. -/
def storeCompleted (ledger : OperationLedger Ok) (key : OperationKey) (response : ResponsePayload Ok)
    (now responseBytes : ℕ) : OperationLedger Ok :=
  { ledger with
    entries := ledger.entries.modify key fun entry =>
      { entry with state := .completed response now responseBytes }
    completedResponses := saturatingAdd ledger.completedResponses 1
    completedBytes := saturatingAdd ledger.completedBytes responseBytes }

/-- Store the response of a pending operation, or drop it if it is too large. -/
def recordResponse (env : LedgerEnv Ok) (ledger : OperationLedger Ok) (now : ℕ)
    (order : List OperationKey) (key : OperationKey) (response : ResponsePayload Ok) :
    OperationLedger Ok :=
  let responseBytes := env.serializedResponseSize response
  if ledger.limits.maxResponseBytes < responseBytes then
    { ledger with
      entries := ledger.entries.modify key fun entry => { entry with state := .tombstone } }
  else
    evictLoop key order (order.length + 1) (ledger.storeCompleted key response now responseBytes)

/-- Complete the operation owned by the routed request: the waiters that must receive the response. -/
def complete (env : LedgerEnv Ok) (ledger : OperationLedger Ok) (now : ℕ)
    (order : List OperationKey) (routedRequest : OperationWaiter) (response : ResponsePayload Ok) :
    Option (CompletedOperation Ok) × OperationLedger Ok :=
  match ledger.routedRequests.get routedRequest with
  | none => (none, ledger)
  | some key =>
      let ledger := { ledger with routedRequests := ledger.routedRequests.erase routedRequest }
      match ledger.entries.get key with
      | some ⟨_, .pending waiters⟩ =>
          let released := { ledger with
            pendingRequests := waiters.foldl Table.erase ledger.pendingRequests }
          (some ⟨waiters, response⟩, released.recordResponse env now order key response)
      | _ => (none, ledger)

def removeWaitersForClient (ledger : OperationLedger Ok) (clientId : UInt64) :
    OperationLedger Ok :=
  { ledger with
    entries := ledger.entries.mapValues fun _ entry =>
      match entry.state with
      | .pending waiters =>
          { entry with state := .pending (waiters.filter fun waiter => waiter.clientId ≠ clientId) }
      | _ => entry
    pendingRequests := ledger.pendingRequests.retain fun waiter _ => waiter.clientId ≠ clientId }

end OperationLedger

end CueShell
