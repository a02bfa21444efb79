import CueShell.Model.Lifecycle

/-! # Runs of the restart file and of a lifecycle

Any process may call any function on the file at any time. What the callers promise is kept apart: a
restart is armed under a new UUID, and only the daemon that armed it takes it back, to what it found
before. A successor opens its execution in three calls, which other calls on the same lifecycle may
come between.
-/

namespace CueShell

/-- A call on the file. -/
inductive RestartCall where
  | arm (expected : Option RestartRecord) (armed : RestartRecord)
  | rollback (armed : RestartRecord) (previous : Option RestartRecord)
  | complete (expected : RestartRecord)
  | cancelForStop (uuid : String)
  /-- The fence of a daemon that prepares a restart or was started by one, or of another daemon. -/
  | cancelFence (intent : Option RestartRecord) (uuid : String)
  | cancelMatching (armed : RestartRecord)
  | clear
deriving DecidableEq, Repr

/-- The file, with what has been granted so far. -/
structure RestartHistory where
  file : Option RestartRecord
  /-- What a daemon expected and what it armed, for every call that was answered `Armed`. -/
  granted : List (Option RestartRecord × RestartRecord)
  /-- The tickets whose completion was answered `Completed`, the last first. -/
  completions : List RestartRecord
  /-- Every restart id that has been named. -/
  ids : List String

def RestartHistory.start (file : Option RestartRecord) : RestartHistory :=
  ⟨file, [], [], file.toList.map RestartRecord.restartId⟩

def RestartCall.ids : RestartCall → List String
  | .arm expected armed => armed.restartId :: expected.toList.map RestartRecord.restartId
  | .rollback armed previous => armed.restartId :: previous.toList.map RestartRecord.restartId
  | .complete expected => [expected.restartId]
  | .cancelForStop uuid => [(stopRecord uuid).restartId]
  | .cancelFence intent uuid =>
      (stopRecord uuid).restartId :: intent.toList.map RestartRecord.restartId
  | .cancelMatching armed => [armed.restartId]
  | .clear => []

/-- The file after a call. -/
def RestartCall.file (io : RecordIo) (call : RestartCall) (file : Option RestartRecord) :
    Option RestartRecord :=
  match call with
  | .arm expected armed => (armRestartRecord io expected armed file).2
  | .rollback armed previous => (rollbackArmedRestart io armed previous file).2
  | .complete expected => (completeMatchingArmedRestart io expected file).2
  | .cancelForStop uuid => (cancelRestartIntentForStop io uuid file).2
  | .cancelFence (some intent) _ => (writeRestartRecord io intent.cancel file).2
  | .cancelFence none uuid => (cancelRestartIntentForStop io uuid file).2
  | .cancelMatching armed => (cancelMatchingArmedRestart io armed file).2
  | .clear => (clearCancelledRestartRecord io file).2

def RestartHistory.step (history : RestartHistory) (io : RecordIo) (call : RestartCall) :
    RestartHistory where
  file := call.file io history.file
  granted := match call with
    | .arm expected armed =>
        match (armRestartRecord io expected armed history.file).1 with
        | .ok .armed => (expected, armed) :: history.granted
        | _ => history.granted
    | _ => history.granted
  completions := match call with
    | .complete expected =>
        match (completeMatchingArmedRestart io expected history.file).1 with
        | .ok .completed => expected :: history.completions
        | _ => history.completions
    | _ => history.completions
  ids := call.ids ++ history.ids

def RestartHistory.run (history : RestartHistory) (calls : List (RecordIo × RestartCall)) :
    RestartHistory :=
  calls.foldl (fun history (io, call) => history.step io call) history

/-- What the caller of a function promises. -/
def RestartHistory.Promised (history : RestartHistory) : RestartCall → Prop
  | .arm _ armed => armed.phase = .armed ∧ armed.restartId ∉ history.ids
  | .rollback armed previous => (previous, armed) ∈ history.granted
  | _ => True

/-- Every call of the run keeps its promise. -/
def RestartHistory.AllPromised : RestartHistory → List (RecordIo × RestartCall) → Prop
  | _, [] => True
  | history, (io, call) :: rest => history.Promised call ∧ AllPromised (history.step io call) rest

/-- How far a successor is with its startup. -/
inductive StartupStage where
  | probed
  | committed
  | marked
  | ready
  /-- The restart was cancelled or could not be completed, and the daemon ends. -/
  | ended
deriving DecidableEq, Repr

/-- A successor, the file it shares with other processes, and whether a stop has been acknowledged. -/
structure Successor where
  ticket : RestartRecord
  life : DaemonLifecycle
  file : Option RestartRecord
  stage : StartupStage
  stopped : Bool

/-- A call on the lifecycle of the successor, or on the file by another process. -/
inductive SuccessorCall where
  | complete (io : RecordIo)
  | markCompleted
  | markReady
  | cancelForShutdown (io : RecordIo) (uuid : String)
  | failStop (io : RecordIo) (uuid : String)
  | requestRestart (answers : RestartAnswers)
  | elsewhere (io : RecordIo) (call : RestartCall)

namespace Successor

def new (ownership : RestartOwnership) (daemonInstanceId : String) (ticket : RestartRecord)
    (file : Option RestartRecord) : Successor :=
  ⟨ticket, .newWithStartup ownership daemonInstanceId (some ticket), file, .probed, false⟩

/-- What a stop leaves behind: it is acknowledged if it has succeeded. -/
def afterStop (successor : Successor) :
    Except String Unit × DaemonLifecycle × Option RestartRecord → Successor
  | (.ok (), life, file) => { successor with life := life, file := file, stopped := true }
  | (.error _, life, file) => { successor with life := life, file := file }

def step (successor : Successor) : SuccessorCall → Successor
  | .complete io =>
      if successor.stage = .probed then
        match completeMatchingArmedRestart io successor.ticket successor.file with
        | (.ok .completed, file) | (.ok .alreadyCompleted, file) =>
            { successor with file := file, stage := .committed }
        | (_, file) => { successor with file := file, stage := .ended }
      else successor
  | .markCompleted =>
      if successor.stage = .committed then
        { successor with life := successor.life.markStartupRestartCompleted, stage := .marked }
      else successor
  | .markReady =>
      if successor.stage = .marked then
        { successor with life := successor.life.markStartupExecutionReady, stage := .ready }
      else successor
  | .cancelForShutdown io uuid =>
      successor.afterStop
        (DaemonLifecycle.cancelRestartForShutdown io uuid successor.life successor.file)
  | .failStop io uuid =>
      successor.afterStop (DaemonLifecycle.failStopRestart io uuid successor.life successor.file)
  | .requestRestart answers =>
      let (_, life, file) := DaemonLifecycle.requestRestart answers successor.life successor.file
      { successor with life := life, file := file }
  | .elsewhere io call => { successor with file := call.file io successor.file }

def run (successor : Successor) (calls : List SuccessorCall) : Successor := calls.foldl step successor

/-- The call that announces a startup which was marked as completed after a stop. -/
def Announces (successor : Successor) : SuccessorCall → Prop
  | .markReady => successor.stopped ∧ successor.stage = .marked ∧ successor.life.state = .running
  | _ => False

end Successor

end CueShell
