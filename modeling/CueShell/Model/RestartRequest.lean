import CueShell.Model.RestartRun
import Mathlib.Data.Nat.Notation

/-! # A request for a restart among other processes

The request reads the file, spawns a helper, arms the file and hands over; other processes may use the
file between these steps. Beside the lifecycle there is the response that the handover waits for. The
number of helpers that were spawned is counted.
-/

namespace CueShell

structure RestartDesk extends DaemonLifecycle where
  /-- The client and the request whose response has to be written before the handover. -/
  pendingResponse : Option (UInt64 × UInt32)
  helpers : ℕ
deriving DecidableEq, Repr

/-- One request, the answers of the environment, and what other processes do to the file before it is
read, before it is armed and before the handover is decided. -/
structure RestartAttempt where
  clientId : UInt64
  requestId : UInt32
  answers : RestartAnswers
  beforeRead : List (RecordIo × RestartCall) := []
  beforeArm : List (RecordIo × RestartCall) := []
  afterArm : List (RecordIo × RestartCall) := []

/-- The file after calls of other processes. -/
def elsewhere (calls : List (RecordIo × RestartCall)) (file : Option RestartRecord) :
    Option RestartRecord :=
  calls.foldl (fun file (io, call) => call.file io file) file

namespace RestartDesk

/-- What a method answers, and the desk and the file after it. -/
abbrev Call (α : Type) :=
  RestartDesk → Option RestartRecord → Except String α × RestartDesk × Option RestartRecord

/-- Run a method of the lifecycle. -/
def onLifecycle {α : Type} (call : DaemonLifecycle.Call α) : Call α := fun desk file =>
  let (answer, life, file) := call desk.toDaemonLifecycle file
  (answer, { desk with toDaemonLifecycle := life }, file)

/-- The part of the request that follows the arming of the file. -/
def handOver (attempt : RestartAttempt) (intent : RestartRecord) (expected : Option RestartRecord) :
    Call RestartTicket := fun desk file =>
  match onLifecycle (DaemonLifecycle.handOver attempt.answers intent expected) desk
      (elsewhere attempt.afterArm file) with
  | (.ok ticket, desk, file) =>
      (.ok ticket, { desk with pendingResponse := some (attempt.clientId, attempt.requestId) }, file)
  | (.error error, desk, file) => (.error error, desk, file)

def requestRestartWith (attempt : RestartAttempt) : Call RestartTicket := fun desk file =>
  let answers := attempt.answers
  if desk.restartOwnership = .unknown then
    (.error "cannot safely restart: service-manager ownership is unknown; daemon remains running",
      desk, file)
  else match desk.restart with
  | some intent =>
      (.ok ⟨intent.restartId, intent.daemonInstanceId, intent.targetGeneration, false⟩, desk, file)
  | none =>
      if desk.executionAdmissionClosed then
        (.error "cannot restart while a successor is still completing startup", desk, file)
      else
        let file := elsewhere attempt.beforeRead file
        if answers.preflight.isSome then (.error (answers.preflight.getD ""), desk, file)
        else if file.any RestartRecord.isCancelled then
          (.error "restart cancelled: an explicit stop already won", desk, file)
        else match answers.spawnWatchdog with
        | .error error => (.error error, desk, file)
        | .ok () =>
            let desk := { desk with helpers := desk.helpers + 1 }
            let file := elsewhere attempt.beforeArm file
            let unreaped (context : String) := match answers.terminateAndReap with
              | .ok () => ""
              | .error error => context ++ error
            match armRestartRecord answers.arm desk.startupRestart (desk.intent answers) file with
            | (.error error, file) =>
                (.error (error ++
                  unreaped "; successor helper could not be reaped after arm failure: "), desk, file)
            | (.ok .stopWon, file) =>
                (.error ("restart cancelled: an explicit stop already won" ++
                  unreaped "; successor helper could not be reaped: "), desk, file)
            | (.ok .armed, file) =>
                handOver attempt (desk.intent answers) desk.startupRestart desk file

def markRestartResponseComplete (clientId : UInt64) (requestId : UInt32) (desk : RestartDesk) :
    RestartDesk :=
  if desk.state = .draining ∧ desk.pendingResponse = some (clientId, requestId) then
    { desk with pendingResponse := none }
  else desk

def resolveRestartResponseDisconnect (clientId : UInt64) (desk : RestartDesk) : RestartDesk :=
  match desk.pendingResponse with
  | some (pendingClient, requestId) =>
      if pendingClient = clientId then desk.markRestartResponseComplete clientId requestId else desk
  | none => desk

/-- The methods of the lifecycle, and calls of other processes on the file. -/
inductive Use where
  | request (attempt : RestartAttempt)
  | cancelForShutdown (io : RecordIo) (uuid : String)
  | failStop (io : RecordIo) (uuid : String)
  | markCompleted
  | markReady
  | responseComplete (clientId : UInt64) (requestId : UInt32)
  | disconnect (clientId : UInt64)
  | elsewhere (calls : List (RecordIo × RestartCall))

def use (desk : RestartDesk) (file : Option RestartRecord) :
    Use → RestartDesk × Option RestartRecord
  | .request attempt => (requestRestartWith attempt desk file).2
  | .cancelForShutdown io uuid =>
      (onLifecycle (DaemonLifecycle.cancelRestartForShutdown io uuid) desk file).2
  | .failStop io uuid => (onLifecycle (DaemonLifecycle.failStopRestart io uuid) desk file).2
  | .markCompleted => ({ desk with
      toDaemonLifecycle := desk.toDaemonLifecycle.markStartupRestartCompleted }, file)
  | .markReady => ({ desk with
      toDaemonLifecycle := desk.toDaemonLifecycle.markStartupExecutionReady }, file)
  | .responseComplete clientId requestId => (desk.markRestartResponseComplete clientId requestId, file)
  | .disconnect clientId => (desk.resolveRestartResponseDisconnect clientId, file)
  | .elsewhere calls => (desk, CueShell.elsewhere calls file)

def uses (desk : RestartDesk) (file : Option RestartRecord) (later : List Use) :
    RestartDesk × Option RestartRecord :=
  later.foldl (fun (desk, file) use => RestartDesk.use desk file use) (desk, file)

end RestartDesk

end CueShell
