import CueShell.Model.Scheduler.State

/-! # Snapshots of completed scripts

The scheduler keeps what it answers about a script for a while after the script has ended: in a map, in
the order of completion, and with two counters that bound how much of it is kept. What is too much loses
its answer but stays known. Instants are in nanoseconds; the id of an info and the size of its
serialized form are parameters.
-/

namespace CueShell

def scriptSnapshotResponseCapacity : ℕ := 1024

def scriptSnapshotMaxItemBytes : ℕ := 8 * 1024 * 1024

def scriptSnapshotMaxTotalBytes : ℕ := 64 * 1024 * 1024

def scriptSnapshotTtl : ℕ := 15 * 60 * 10 ^ 9

structure CompletedScriptSnapshot (Info : Type) where
  /-- The answer, unless it was too large or has been evicted. -/
  info : Option Info
  /-- The named session that owned the script. -/
  sessionId : Option String
  completedAt : ℕ
  responseBytes : ℕ

namespace CompletedScriptSnapshot

variable {Info : Type}

/-- A snapshot without its answer. -/
def evicted (snapshot : CompletedScriptSnapshot Info) : CompletedScriptSnapshot Info :=
  { snapshot with info := none, responseBytes := 0 }

/-- One for a snapshot with an answer. -/
def response (snapshot : CompletedScriptSnapshot Info) : ℕ := if snapshot.info.isSome then 1 else 0

end CompletedScriptSnapshot

structure SnapshotLedger (Info : Type) where
  snapshots : Table ScriptId (CompletedScriptSnapshot Info)
  order : List ScriptId
  responses : ℕ
  bytes : ℕ

namespace SnapshotLedger

variable {Info : Type}

def new : SnapshotLedger Info := ⟨.empty, [], 0, 0⟩

section Prune

variable (now : ℕ)

def expired (ledger : SnapshotLedger Info) (scriptId : ScriptId) : Bool :=
  (ledger.snapshots.get scriptId).all fun snapshot => scriptSnapshotTtl ≤ now - snapshot.completedAt

/-- One turn of the loop of `prune_completed_script_snapshots`, for the front of the order. -/
def dropOldest (ledger : SnapshotLedger Info) (oldest : ScriptId) : SnapshotLedger Info :=
  let dropped := { ledger with order := ledger.order.tail, snapshots := ledger.snapshots.erase oldest }
  match ledger.snapshots.get oldest with
  | some snapshot =>
      if snapshot.info.isSome then
        { dropped with responses := ledger.responses - 1, bytes := ledger.bytes - snapshot.responseBytes }
      else dropped
  | none => dropped

def pruneLoop : List ScriptId → SnapshotLedger Info → SnapshotLedger Info
  | [], ledger => ledger
  | oldest :: rest, ledger => if ledger.expired now oldest then pruneLoop rest (ledger.dropOldest oldest) else ledger

def pruneCompletedScriptSnapshots (ledger : SnapshotLedger Info) : SnapshotLedger Info :=
  pruneLoop now ledger.order ledger

end Prune

section Evict

def holdsInfo (ledger : SnapshotLedger Info) (scriptId : ScriptId) : Bool :=
  (ledger.snapshots.get scriptId).any fun snapshot => snapshot.info.isSome

def overLimit (ledger : SnapshotLedger Info) : Bool :=
  scriptSnapshotResponseCapacity < ledger.responses || scriptSnapshotMaxTotalBytes < ledger.bytes

/-- Take the answer from a snapshot. -/
def evictInfo (ledger : SnapshotLedger Info) (oldest : ScriptId) : SnapshotLedger Info where
  snapshots := ledger.snapshots.modify oldest CompletedScriptSnapshot.evicted
  order := ledger.order
  responses := ledger.responses - 1
  bytes := ledger.bytes - ((ledger.snapshots.get oldest).map CompletedScriptSnapshot.responseBytes).getD 0

theorem evictInfo_response (ledger : SnapshotLedger Info) {oldest : ScriptId}
    (found : ledger.order.find? ledger.holdsInfo = some oldest) :
    (ledger.evictInfo oldest).snapshots.total CompletedScriptSnapshot.response <
      ledger.snapshots.total CompletedScriptSnapshot.response := by
  obtain ⟨snapshot, here, info⟩ : ∃ snapshot, ledger.snapshots.get oldest = some snapshot ∧
      snapshot.info.isSome = true := by
    have holds := List.find?_some found
    rw [holdsInfo] at holds
    cases here : ledger.snapshots.get oldest with
    | none => simp [here] at holds
    | some snapshot => exact ⟨snapshot, rfl, by simpa [here] using holds⟩
  have counted := Table.total_modify ledger.snapshots CompletedScriptSnapshot.response
    CompletedScriptSnapshot.evicted here
  rw [CompletedScriptSnapshot.response, if_pos info] at counted
  change (ledger.snapshots.modify oldest _).total _ < _
  simp only [CompletedScriptSnapshot.response, CompletedScriptSnapshot.evicted] at counted ⊢
  simp at counted
  omega

/-- The oldest answers go until the counters are within their limits. -/
def evictLoop (ledger : SnapshotLedger Info) : SnapshotLedger Info :=
  if ledger.overLimit then
    match _found : ledger.order.find? ledger.holdsInfo with
    | none => ledger
    | some oldest => evictLoop (ledger.evictInfo oldest)
  else ledger
termination_by ledger.snapshots.total CompletedScriptSnapshot.response
decreasing_by exact ledger.evictInfo_response ‹_›

end Evict

section Record

variable (scriptId : Info → ScriptId) (serializedSize : Info → ℕ)

/-- `HashMap::insert`: the counters and the order forget the snapshot that was stored under the id. -/
def replacePrevious (ledger : SnapshotLedger Info) (id : ScriptId) : SnapshotLedger Info :=
  match ledger.snapshots.get id with
  | none => ledger
  | some previous =>
      let forgotten := { ledger with order := ledger.order.filter (· ≠ id) }
      if previous.info.isSome then
        { forgotten with responses := ledger.responses - 1, bytes := ledger.bytes - previous.responseBytes }
      else forgotten

/-- The snapshot of an info; one that is too large is kept without it. -/
def snapshotOf (info : Info) (sessionId : Option String) (completedAt : ℕ) : CompletedScriptSnapshot Info :=
  if serializedSize info ≤ scriptSnapshotMaxItemBytes then ⟨some info, sessionId, completedAt, serializedSize info⟩
  else ⟨none, sessionId, completedAt, 0⟩

/-- Count the snapshot and put its id at the back. -/
def pushSnapshot (ledger : SnapshotLedger Info) (id : ScriptId) (snapshot : CompletedScriptSnapshot Info) :
    SnapshotLedger Info where
  snapshots := ledger.snapshots.insert id snapshot
  order := ledger.order ++ [id]
  responses := if 0 < snapshot.responseBytes then ledger.responses + 1 else ledger.responses
  bytes := if 0 < snapshot.responseBytes then ledger.bytes + snapshot.responseBytes else ledger.bytes

/-- The clock is read twice, for the pruning and for the new snapshot. -/
def recordCompletedScriptSnapshot (info : Info) (sessionId : Option String) (prunedAt completedAt : ℕ)
    (ledger : SnapshotLedger Info) : SnapshotLedger Info :=
  let id := scriptId info
  let pruned := ledger.pruneCompletedScriptSnapshots prunedAt
  ((pruned.replacePrevious id).pushSnapshot id (snapshotOf serializedSize info sessionId completedAt)).evictLoop

end Record

section Run

inductive SnapshotCall (Info : Type) where
  | record (info : Info) (sessionId : Option String) (prunedAt completedAt : ℕ)
  | prune (now : ℕ)

/-- The instants that a call reads from the clock. -/
def SnapshotCall.instants : SnapshotCall Info → List ℕ
  | .record _ _ prunedAt completedAt => [prunedAt, completedAt]
  | .prune now => [now]

def call (scriptId : Info → ScriptId) (serializedSize : Info → ℕ) (ledger : SnapshotLedger Info) :
    SnapshotCall Info → SnapshotLedger Info
  | .record info sessionId prunedAt completedAt =>
      ledger.recordCompletedScriptSnapshot scriptId serializedSize info sessionId prunedAt completedAt
  | .prune now => ledger.pruneCompletedScriptSnapshots now

end Run

end SnapshotLedger

end CueShell
