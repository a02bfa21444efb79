import Mathlib.Data.Int.Notation

/-! # The lifecycle of the daemon

A restart is decided by one small file that the old daemon, its successor, the helper that starts it
and the commands `start` and `stop` share. Every function below reads and writes the file under a lock;
reading and writing may fail. The daemon keeps its own state beside the file, in atomic variables.
Watch channels that only wake tasks are left out.
-/

namespace CueShell

inductive RestartPhase where
  | armed
  | cancelled
  | completed
deriving DecidableEq, Repr

structure RestartRecord where
  restartId : String
  daemonInstanceId : String
  protocolVersion : UInt32
  targetGeneration : String
  phase : RestartPhase
  supervisorRestart : Bool
deriving DecidableEq, Repr

def ipcProtocolVersion : UInt32 := 2

inductive RestartCompletion where
  | completed
  | alreadyCompleted
  | cancelledOrReplaced
deriving DecidableEq, Repr

inductive RestartArm where
  | armed
  | stopWon
deriving DecidableEq, Repr

inductive RestartArmRollback where
  | restored
  | stopWon
  | replaced
deriving DecidableEq, Repr

/-- The errors of the file system in one call, if they occur: of taking the lock, of reading and
decoding the file, and of replacing or removing it. -/
structure RecordIo where
  lock : Option String := none
  read : Option String := none
  write : Option String := none
deriving DecidableEq, Repr

section File

variable (io : RecordIo)

/-- What a call on the file answers, and the file after it. -/
abbrev OnRecord (α : Type) := Option RestartRecord → Except String α × Option RestartRecord

/-- Take the lock, read the file and decide what to do; the decision may be an answer that leaves the
file alone, or a new content. -/
def withRecord {α : Type}
    (decide : Option RestartRecord → Except String (α × Option (Option RestartRecord))) :
    OnRecord α := fun current =>
  match io.lock.or io.read with
  | some error => (.error error, current)
  | none =>
      match decide current with
      | .error error => (.error error, current)
      | .ok (answer, none) => (.ok answer, current)
      | .ok (answer, some next) =>
          match io.write with
          | some error => (.error error, current)
          | none => (.ok answer, next)

def RestartRecord.isCancelled (record : RestartRecord) : Bool := record.phase = .cancelled

def RestartRecord.cancel (record : RestartRecord) : RestartRecord := { record with phase := .cancelled }

/-- Replace the file without looking at it. -/
def writeRestartRecord (intent : RestartRecord) : OnRecord Unit := fun current =>
  match io.lock.or io.write with
  | some error => (.error error, current)
  | none => (.ok (), some intent)

def armRestartRecord (expected : Option RestartRecord) (armed : RestartRecord) : OnRecord RestartArm :=
  withRecord io fun current =>
    if current.any RestartRecord.isCancelled then .ok (.stopWon, none)
    else if current = expected then .ok (.armed, some (some armed))
    else .error "restart fence changed before arm; daemon remains running"

def rollbackArmedRestart (armed : RestartRecord) (previous : Option RestartRecord) :
    OnRecord RestartArmRollback :=
  withRecord io fun current =>
    if current.any RestartRecord.isCancelled then .ok (.stopWon, none)
    else if current ≠ some armed then .ok (.replaced, none)
    else .ok (.restored, some previous)

def cancelMatchingArmedRestart (armed : RestartRecord) : OnRecord Unit :=
  withRecord io fun
    | none => .ok ((), none)
    | some current =>
        if current.isCancelled || current ≠ armed then .ok ((), none)
        else .ok ((), some (some current.cancel))

/-- The record of a stop that finds no restart; its id is a new UUID. -/
def stopRecord (uuid : String) : RestartRecord where
  restartId := "stop-" ++ uuid
  daemonInstanceId := ""
  protocolVersion := ipcProtocolVersion
  targetGeneration := ""
  phase := .cancelled
  supervisorRestart := false

def cancelRestartIntentForStop (uuid : String) : OnRecord Bool :=
  withRecord io fun current => .ok (true, some (some (current.getD (stopRecord uuid)).cancel))

def clearCancelledRestartRecord : OnRecord Bool :=
  withRecord io fun
    | none => .ok (false, none)
    | some record =>
        if record.phase ≠ .cancelled then .ok (false, none) else .ok (true, some none)

/-- The fields that make up a ticket. -/
def RestartRecord.sameTicket (record expected : RestartRecord) : Bool :=
  record.restartId = expected.restartId && record.daemonInstanceId = expected.daemonInstanceId &&
    record.targetGeneration = expected.targetGeneration &&
    record.protocolVersion = expected.protocolVersion

def completeMatchingArmedRestart (expected : RestartRecord) : OnRecord RestartCompletion :=
  withRecord io fun
    | none => .ok (.cancelledOrReplaced, none)
    | some record =>
        if !record.sameTicket expected then .ok (.cancelledOrReplaced, none)
        else match record.phase with
          | .armed => .ok (.completed, some (some { record with phase := .completed }))
          | .completed => .ok (.alreadyCompleted, none)
          | .cancelled => .ok (.cancelledOrReplaced, none)

end File

inductive LifecycleState where
  | starting
  | running
  | draining
deriving DecidableEq, Repr

inductive RestartOwnership where
  | supervisor
  | standalone
  | unknown
deriving DecidableEq, Repr

structure RestartTicket where
  restartId : String
  daemonInstanceId : String
  targetGeneration : String
  firstRequest : Bool
deriving DecidableEq, Repr

structure DaemonLifecycle where
  state : LifecycleState
  restartOwnership : RestartOwnership
  daemonInstanceId : String
  restart : Option RestartRecord
  startupRestart : Option RestartRecord
  executionReady : Bool
  /-- Whether the task that waits for a stop has been woken. -/
  stop : Bool
deriving DecidableEq, Repr

/-- The answers of the environment to one request for a restart. -/
structure RestartAnswers where
  restartId : String
  targetGeneration : String
  preflight : Option String := none
  spawnWatchdog : Except String Unit := .ok ()
  activate : Except String Unit := .ok ()
  terminateAndReap : Except String Unit := .ok ()
  arm : RecordIo := {}
  rollback : RecordIo := {}
  cancel : RecordIo := {}

namespace DaemonLifecycle

def newWithStartup (restartOwnership : RestartOwnership) (daemonInstanceId : String)
    (startupRestart : Option RestartRecord) : DaemonLifecycle where
  state := if startupRestart.isSome then .starting else .running
  restartOwnership := restartOwnership
  daemonInstanceId := daemonInstanceId
  restart := none
  startupRestart := startupRestart
  executionReady := startupRestart.isNone
  stop := false

variable (life : DaemonLifecycle)

def executionAdmissionClosed : Bool := life.state ≠ .running || !life.executionReady

/-- What a method of the lifecycle answers, and the lifecycle and the file after it. -/
abbrev Call (α : Type) :=
  DaemonLifecycle → Option RestartRecord → Except String α × DaemonLifecycle × Option RestartRecord

/-- Cancel the restart this daemon prepares or was started by, or else whatever the file says. -/
def cancelRestartFence (io : RecordIo) (uuid : String) : Call Unit := fun life file =>
  match life.restart, life.startupRestart with
  | some intent, _ =>
      let (answer, file) := writeRestartRecord io intent.cancel file
      (answer, { life with restart := some intent.cancel }, file)
  | none, some intent =>
      let (answer, file) := writeRestartRecord io intent.cancel file
      (answer, { life with startupRestart := some intent.cancel }, file)
  | none, none =>
      let (answer, file) := cancelRestartIntentForStop io uuid file
      (answer.map fun _ => (), life, file)

def cancelRestartForShutdown (io : RecordIo) (uuid : String) : Call Unit := fun life file =>
  match cancelRestartFence io uuid life file with
  | (.error error, life, file) => (.error error, life, file)
  | (.ok (), life, file) => (.ok (), { life with state := .draining }, file)

def failStopRestart (io : RecordIo) (uuid : String) : Call Unit := fun life file =>
  match cancelRestartForShutdown io uuid life file with
  | (.error error, life, file) => (.error error, life, file)
  | (.ok (), life, file) => (.ok (), { life with stop := true }, file)

def failStopUnreapedHandoff (io : RecordIo) (armed : RestartRecord) : Call Unit := fun life file =>
  let (answer, file) := cancelMatchingArmedRestart io armed file
  (answer, { life with state := .draining, executionReady := false, stop := true }, file)

def markStartupRestartCompleted : DaemonLifecycle :=
  { life with
    startupRestart := life.startupRestart.map fun record => { record with phase := .completed }
    state := .running }

def markStartupExecutionReady : DaemonLifecycle :=
  if life.state = .running then { life with executionReady := true } else life

/-- The record of a new restart. -/
def intent (answers : RestartAnswers) : RestartRecord where
  restartId := answers.restartId
  daemonInstanceId := life.daemonInstanceId
  protocolVersion := ipcProtocolVersion
  targetGeneration := answers.targetGeneration
  phase := .armed
  supervisorRestart := life.restartOwnership = .supervisor

/-- The part of a request for a restart that follows the arming of the file. -/
def handOver (answers : RestartAnswers) (intent : RestartRecord) (expected : Option RestartRecord) :
    Call RestartTicket := fun life file =>
  match answers.activate with
  | .ok () =>
      (.ok ⟨intent.restartId, intent.daemonInstanceId, intent.targetGeneration, true⟩,
        { life with state := .draining, restart := some intent }, file)
  | .error activationError =>
      match answers.terminateAndReap with
      | .error reapError =>
          let (cancellation, life, file) := failStopUnreapedHandoff answers.cancel intent life file
          let message := match cancellation with
            | .ok () => "; helper could not be reaped, so its ticket was cancelled and the daemon is " ++
                "fail-stopping: " ++ reapError
            | .error cancelError => "; helper could not be reaped and its ticket could not be " ++
                "cancelled, so the daemon is fail-stopping with admission closed: " ++ reapError ++
                "; cancellation error: " ++ cancelError
          (.error ("successor handoff failed after restart arm: " ++ activationError ++ message), life,
            file)
      | .ok () =>
          match rollbackArmedRestart answers.rollback intent expected file with
          | (.error error, file) => (.error error, life, file)
          | (.ok rollback, file) =>
              let context := match rollback with
                | .restored => "successor handoff failed; the Armed restart fence was rolled back"
                | .stopWon => "successor handoff failed after an explicit stop won; cancellation " ++
                    "was preserved"
                | .replaced => "successor handoff failed and the restart fence was concurrently " ++
                    "replaced; no rollback was attempted"
              (.error (context ++ ": " ++ activationError), life, file)

def requestRestart (answers : RestartAnswers) : Call RestartTicket := fun life file =>
  if life.restartOwnership = .unknown then
    (.error "cannot safely restart: service-manager ownership is unknown; daemon remains running",
      life, file)
  else match life.restart with
  | some intent =>
      (.ok ⟨intent.restartId, intent.daemonInstanceId, intent.targetGeneration, false⟩, life, file)
  | none =>
      if life.executionAdmissionClosed then
        (.error "cannot restart while a successor is still completing startup", life, file)
      else if answers.preflight.isSome then (.error (answers.preflight.getD ""), life, file)
      else if file.any RestartRecord.isCancelled then
        (.error "restart cancelled: an explicit stop already won", life, file)
      else match answers.spawnWatchdog with
      | .error error => (.error error, life, file)
      | .ok () =>
          -- A helper that has been spawned in vain is stopped; whether that works is only reported.
          let unreaped (context : String) := match answers.terminateAndReap with
            | .ok () => ""
            | .error error => context ++ error
          match armRestartRecord answers.arm life.startupRestart (life.intent answers) file with
          | (.error error, file) =>
              (.error (error ++
                unreaped "; successor helper could not be reaped after arm failure: "), life, file)
          | (.ok .stopWon, file) =>
              (.error ("restart cancelled: an explicit stop already won" ++
                unreaped "; successor helper could not be reaped: "), life, file)
          | (.ok .armed, file) =>
              handOver answers (life.intent answers) life.startupRestart life file

end DaemonLifecycle

end CueShell
