import CueShell.Model.Job
import CueShell.Model.Resource
import CueShell.Model.RingBuffer
import CueShell.ToMathlib.Table
import Mathlib.Data.Finset.Sort

/-! # Foreground attachments

Clients attach to the terminal of a job as observers, and one of them may hold its control. The state
of the attachments is shared by the process manager, which has an entry for the job in its table, and
by the reader task of the job, which outlives that entry when the job is killed. What one of them
does under the lock is one step; events of the reader that were addressed under the lock are sent
after it, one by one.
-/

namespace CueShell

structure ForegroundState where
  /-- Client id to the epoch of its current attachment. -/
  observers : Table ℕ ℕ
  controller : Option ℕ
  lastAttachmentId : ℕ
  closed : Bool

structure ForegroundRecipient where
  clientId : ℕ
  attachmentId : ℕ
deriving DecidableEq, Repr

inductive ForegroundAttachError where
  | closed
  | alreadyAttached
  | controlHeld
  | attachmentIdExhausted
deriving DecidableEq, Repr

structure ForegroundAttachOutcome where
  role : ForegroundRole
  attachmentId : ℕ
  controlRecipients : Option (List ForegroundRecipient)
deriving DecidableEq, Repr

namespace ForegroundState

def fresh : ForegroundState := ⟨.empty, none, 0, false⟩

variable (state : ForegroundState) (clientId : ℕ)

def observes : Bool := (state.observers.get clientId).isSome

def role : Option ForegroundRole :=
  if state.observes clientId then
    some (if state.controller = some clientId then .controller else .observer)
  else none

def controlAvailable : Bool := !state.closed && state.controller.isNone

/-- The observers in the order of their ids. -/
def recipients : List ForegroundRecipient :=
  (state.observers.keys.sort (· ≤ ·)).filterMap fun clientId =>
    (state.observers.get clientId).map fun attachmentId => ⟨clientId, attachmentId⟩

def attach (requestedRole : ForegroundRole) :
    Except ForegroundAttachError (ForegroundState × ForegroundAttachOutcome) :=
  if state.closed then .error .closed
  else if state.observes clientId then .error .alreadyAttached
  else if requestedRole = .controller ∧ state.controller.isSome then .error .controlHeld
  else if 2 ^ 64 ≤ state.lastAttachmentId + 1 then .error .attachmentIdExhausted
  else
    let attachmentId := state.lastAttachmentId + 1
    let controlRecipients := if requestedRole = .controller then some state.recipients else none
    let next : ForegroundState :=
      { state with
        lastAttachmentId := attachmentId
        observers := state.observers.insert clientId attachmentId
        controller := if requestedRole = .controller then some clientId else state.controller }
    .ok (next, ⟨(next.role clientId).getD .observer, attachmentId, controlRecipients⟩)

/-- Whether control was taken, or nothing when it could not be. -/
def claimControl : Option (ForegroundState × Bool) :=
  if state.closed || !state.observes clientId then none
  else
    match state.controller with
    | some controller => if controller ≠ clientId then none else some (state, false)
    | none => some ({ state with controller := some clientId }, true)

def releaseControl : Option (ForegroundState × Bool) :=
  if state.closed || !state.observes clientId then none
  else if state.controller = some clientId then some ({ state with controller := none }, true)
  else some (state, false)

/-- The attachment that ended, and whom the release of its control is told. -/
def detach : Option (ForegroundState × ℕ × Option (List ForegroundRecipient)) :=
  match state.observers.get clientId with
  | none => none
  | some attachmentId =>
      let rest := { state with observers := state.observers.erase clientId }
      if state.controller = some clientId then
        let released := { rest with controller := none }
        some (released, attachmentId, some released.recipients)
      else some (rest, attachmentId, none)

/-- The end of the foreground. -/
def close : ForegroundState :=
  { state with closed := true, controller := none, observers := .empty }

end ForegroundState

inductive ForegroundPayload where
  | fgOutput (attachmentId : ℕ) (data : List UInt8)
  | fgExited (attachmentId : ℕ) (reason : String)
  | fgControlChanged (attachmentId : ℕ) (controlAvailable : Bool)
deriving DecidableEq, Repr

/-- An event for one client. -/
structure ForegroundEvent where
  clientId : ℕ
  payload : ForegroundPayload
deriving DecidableEq, Repr

inductive JobInput where
  | pty
  | pipe
deriving DecidableEq, Repr

structure ProcessEntry where
  jobId : JobId
  status : JobStatus
  input : Option JobInput
  /-- Whether there is a terminal to resize. -/
  resize : Bool
deriving DecidableEq, Repr

/-- What the reader task of a job shares, and what it still has to send. The bytes it has recorded are
not stored anywhere. -/
structure JobTask where
  foreground : ForegroundState
  ring : RingBuffer
  recorded : List UInt8
  outgoing : List ForegroundEvent

def JobTask.fresh : JobTask where
  foreground := .fresh
  ring := .new RingBuffer.defaultCapacity
  recorded := []
  outgoing := []

structure ForegroundAttachmentInfo where
  id : String
  attachmentId : ℕ
  role : ForegroundRole
  controlAvailable : Bool
  snapshot : List UInt8
  snapshotTruncated : Bool
deriving DecidableEq, Repr

structure ForegroundRoleUpdate where
  id : String
  attachmentId : ℕ
  role : ForegroundRole
  controlAvailable : Bool
deriving DecidableEq, Repr

/-- An attach that succeeded: the response, how many bytes had been recorded and how many of them the ring
buffer held. -/
structure AttachRecord where
  clientId : ℕ
  info : ForegroundAttachmentInfo
  position : ℕ
  retained : ℕ
deriving DecidableEq, Repr

structure ProcessManager where
  /-- The entries, in the order in which the table is walked. -/
  children : List ProcessEntry
  tasks : Table JobId JobTask
  /-- The jobs whose reader has asked for cleanup. -/
  cleanups : List JobId
  /-- The events that were sent, each with its job. -/
  sent : List (JobId × ForegroundEvent)
  attached : List (JobId × AttachRecord)

/-- Register an observer and capture the retained output under the lock. -/
def attachForeground (entry : ProcessEntry) (task : JobTask) (clientId : ℕ)
    (requestedRole : ForegroundRole) :
    Except String (ForegroundState × ForegroundAttachmentInfo × Option (List ForegroundRecipient)) :=
  if entry.status ≠ .running then .error ("job " ++ jobText entry.jobId ++ " is not running")
  else if !entry.resize then
    .error ("job " ++ jobText entry.jobId ++ " does not support foreground attach")
  else
    match task.foreground.attach clientId requestedRole with
    | .error .closed => .error ("job " ++ jobText entry.jobId ++ " foreground is closed")
    | .error .alreadyAttached =>
        .error ("client is already foreground-attached to " ++ jobText entry.jobId)
    | .error .controlHeld =>
        .error ("job " ++ jobText entry.jobId ++ " foreground control is already held")
    | .error .attachmentIdExhausted =>
        .error ("job " ++ jobText entry.jobId ++ " foreground attachment id space is exhausted")
    | .ok (foreground, outcome) =>
        let tail := task.ring.tailWithTruncation RingBuffer.defaultCapacity
        .ok (foreground,
          { id := jobText entry.jobId
            attachmentId := outcome.attachmentId
            role := outcome.role
            controlAvailable := foreground.controlAvailable
            snapshot := tail.1
            snapshotTruncated := tail.2 },
          outcome.controlRecipients)

def claimForegroundControl (entry : ProcessEntry) (foreground : ForegroundState) (clientId : ℕ) :
    Except String (ForegroundState × ForegroundRoleUpdate × Option (List ForegroundRecipient)) :=
  match foreground.observers.get clientId with
  | none => .error "no foreground job observed"
  | some attachmentId =>
      if foreground.closed then .error "no foreground job observed"
      else if foreground.controller.any (· ≠ clientId) then
        .error ("job " ++ jobText entry.jobId ++ " foreground control is already held")
      else
        match foreground.claimControl clientId with
        | some (next, taken) =>
            .ok (next, ⟨jobText entry.jobId, attachmentId, .controller, false⟩,
              if taken then some next.recipients else none)
        | none => .error "no foreground job observed"

def releaseForegroundControl (entry : ProcessEntry) (foreground : ForegroundState) (clientId : ℕ) :
    Except String (ForegroundState × ForegroundRoleUpdate × Option (List ForegroundRecipient)) :=
  match foreground.observers.get clientId with
  | none => .error "no foreground job observed"
  | some attachmentId =>
      if foreground.closed then .error "no foreground job observed"
      else
        match foreground.releaseControl clientId with
        | some (next, released) =>
            .ok (next, ⟨jobText entry.jobId, attachmentId, .observer, next.controlAvailable⟩,
              if released then some next.recipients else none)
        | none => .error "no foreground job observed"

def jobInputKindAllowsClient (requiresController : Bool) (controller : Option ℕ) (clientId : ℕ) : Bool :=
  !requiresController || controller == some clientId

/-- What `emitFgControlChanged` sends. -/
def fgControlChanged (recipients : List ForegroundRecipient) (available : Bool) : List ForegroundEvent :=
  recipients.map fun recipient =>
    ⟨recipient.clientId, .fgControlChanged recipient.attachmentId available⟩

namespace ProcessManager

def initial : ProcessManager := ⟨[], .empty, [], [], []⟩

variable (manager : ProcessManager)

/-- The task of a job; a job that was never spawned has nothing to show. -/
def task (jobId : JobId) : JobTask := (manager.tasks.get jobId).getD .fresh

def foreground (jobId : JobId) : ForegroundState := (manager.task jobId).foreground

def entry? (jobId : JobId) : Option ProcessEntry := manager.children.find? (·.jobId = jobId)

def foregroundJobForClient (clientId : ℕ) : Option JobId :=
  (manager.children.find? fun entry => (manager.foreground entry.jobId).observes clientId).map (·.jobId)

def setTask (jobId : JobId) (task : JobTask) : ProcessManager :=
  { manager with tasks := manager.tasks.insert jobId task }

def setForeground (jobId : JobId) (foreground : ForegroundState) : ProcessManager :=
  manager.setTask jobId { manager.task jobId with foreground := foreground }

def send (jobId : JobId) (events : List ForegroundEvent) : ProcessManager :=
  { manager with sent := manager.sent ++ events.map (jobId, ·) }

def register (jobId : JobId) (record : AttachRecord) : ProcessManager :=
  { manager with attached := manager.attached ++ [(jobId, record)] }

/-- Tell the recipients of a change of control, if there was one. -/
def emitFgControlChanged (jobId : JobId) (recipients : Option (List ForegroundRecipient))
    (available : Bool) : ProcessManager :=
  manager.send jobId (fgControlChanged (recipients.getD []) available)

def attachFg (clientId : ℕ) (jobId : JobId) (role : ForegroundRole) :
    ProcessManager × Except String ForegroundAttachmentInfo :=
  match (manager.foregroundJobForClient clientId).filter (· ≠ jobId) with
  | some current => (manager, .error ("client is already foreground-attached to " ++ jobText current))
  | none =>
      match manager.entry? jobId with
      | none => (manager, .error ("job " ++ jobText jobId ++ " not found"))
      | some entry =>
          match attachForeground entry (manager.task jobId) clientId role with
          | .error message => (manager, .error message)
          | .ok (foreground, info, recipients) =>
              let record : AttachRecord :=
                ⟨clientId, info, (manager.task jobId).recorded.length, (manager.task jobId).ring.len⟩
              let registered := (manager.setForeground jobId foreground).register jobId record
              -- The snapshot once more, in the form that older clients know.
              let legacy : List ForegroundEvent :=
                if role = .controller ∧ info.snapshot ≠ [] then [⟨clientId, .fgOutput 0 info.snapshot⟩]
                else []
              ((registered.send jobId legacy).emitFgControlChanged jobId recipients false, .ok info)

/-- A request for or a return of control, by the job that the client observes. -/
def changeControl (clientId : ℕ) (available : Bool)
    (change : ProcessEntry → ForegroundState → ℕ →
      Except String (ForegroundState × ForegroundRoleUpdate × Option (List ForegroundRecipient))) :
    ProcessManager × Except String ForegroundRoleUpdate :=
  match (manager.foregroundJobForClient clientId).bind manager.entry? with
  | none => (manager, .error "no foreground job observed")
  | some entry =>
      match change entry (manager.foreground entry.jobId) clientId with
      | .error message => (manager, .error message)
      | .ok (foreground, update, recipients) =>
          ((manager.setForeground entry.jobId foreground).emitFgControlChanged entry.jobId recipients
            available, .ok update)

def claimFgControl (clientId : ℕ) : ProcessManager × Except String ForegroundRoleUpdate :=
  manager.changeControl clientId false claimForegroundControl

def releaseFgControl (clientId : ℕ) : ProcessManager × Except String ForegroundRoleUpdate :=
  manager.changeControl clientId true releaseForegroundControl

/-- The loops over the entries: what is told of a job does not depend on the jobs behind it. -/
def detachEntries (clientId : ℕ) (reason : String) : List ProcessEntry → ProcessManager → ProcessManager
  | [], manager => manager
  | entry :: rest, manager =>
      match (manager.foreground entry.jobId).detach clientId with
      | none => detachEntries clientId reason rest manager
      | some (foreground, attachmentId, recipients) =>
          let told := (manager.setForeground entry.jobId foreground).send entry.jobId
            [⟨clientId, .fgExited attachmentId reason⟩]
          detachEntries clientId reason rest (told.emitFgControlChanged entry.jobId recipients true)

def detachFg (clientId : ℕ) (reason : String) : ProcessManager :=
  detachEntries clientId reason manager.children manager

/-- The job whose terminal takes the input of a client. -/
def fgInput (clientId : ℕ) : Option (JobId × JobInput) :=
  (manager.children.find? fun entry => (manager.foreground entry.jobId).controller = some clientId).bind
    fun entry => entry.input.map (entry.jobId, ·)

def fgResize (clientId : ℕ) : Option JobId :=
  ((manager.children.find? fun entry =>
    (manager.foreground entry.jobId).controller = some clientId).filter (·.resize)).map (·.jobId)

/-- Whether input that a client sends to a job is written. -/
def sendJobInput (clientId : ℕ) (jobId : JobId) : Option JobInput :=
  (manager.entry? jobId).bind fun entry => entry.input.filter fun input =>
    jobInputKindAllowsClient (input = .pty) (manager.foreground jobId).controller clientId

/-- Job ids are allotted once. -/
def spawnJob (entry : ProcessEntry) : ProcessManager :=
  if (manager.tasks.get entry.jobId).isSome then manager
  else { manager.setTask entry.jobId .fresh with children := manager.children ++ [entry] }

def removeEntry (jobId : JobId) : ProcessManager :=
  { manager with children := manager.children.filter (·.jobId ≠ jobId) }

/-- The entry goes at once; the reader task is told to stop, and goes on until its process has ended. -/
def killJob (jobId : JobId) : ProcessManager := manager.removeEntry jobId

/-- A chunk is recorded, and addressed to those who observe the job. -/
def recordPtyOutput (jobId : JobId) (data : List UInt8) : ProcessManager :=
  let task := manager.task jobId
  let recipients := if task.foreground.closed then [] else task.foreground.recipients
  manager.setTask jobId
    { task with
      ring := task.ring.push data
      recorded := task.recorded ++ data
      outgoing := task.outgoing ++ recipients.map fun recipient =>
        ⟨recipient.clientId, .fgOutput recipient.attachmentId data⟩ }

/-- The first half of `emitFgExit`: the foreground is closed, and its end is addressed. -/
def closeForeground (jobId : JobId) (reason : String) : ProcessManager :=
  let task := manager.task jobId
  if task.foreground.closed then manager
  else
    manager.setTask jobId
      { task with
        foreground := task.foreground.close
        outgoing := task.outgoing ++ task.foreground.recipients.map fun recipient =>
          ⟨recipient.clientId, .fgExited recipient.attachmentId reason⟩ }

/-- The reader sends the next event that it has addressed. -/
def emitNext (jobId : JobId) : ProcessManager :=
  match (manager.task jobId).outgoing with
  | [] => manager
  | event :: rest => (manager.setTask jobId { manager.task jobId with outgoing := rest }).send jobId [event]

/-- The reader has sent everything, and asks for cleanup. -/
def notifyCleanup (jobId : JobId) : ProcessManager :=
  { manager with cleanups := manager.cleanups ++ [jobId] }

def cleanup : ProcessManager :=
  match manager.cleanups with
  | [] => manager
  | jobId :: rest => { manager.removeEntry jobId with cleanups := rest }

end ProcessManager

/-- A step of the process manager, or of the reader task of a job. -/
inductive ProcessStep where
  | spawn (entry : ProcessEntry)
  | attach (clientId : ℕ) (jobId : JobId) (role : ForegroundRole)
  | claim (clientId : ℕ)
  | release (clientId : ℕ)
  | detach (clientId : ℕ) (reason : String)
  | kill (jobId : JobId)
  | cleanup
  /-- The table is walked in another order. -/
  | rehash (children : List ProcessEntry)
  | chunk (jobId : JobId) (data : List UInt8)
  | emit (jobId : JobId)
  | exit (jobId : JobId) (reason : String)
  | notify (jobId : JobId)

namespace ProcessManager

/-- A reader turns to the next chunk, or to the end, when it has sent what it had to send. -/
def Enabled (manager : ProcessManager) : ProcessStep → Prop
  | .rehash children => children.Perm manager.children
  | .chunk jobId _ => (manager.task jobId).outgoing = [] ∧ (manager.tasks.get jobId).isSome
  | .exit jobId _ => (manager.task jobId).outgoing = [] ∧ (manager.tasks.get jobId).isSome
  | .notify jobId => (manager.task jobId).outgoing = [] ∧ (manager.foreground jobId).closed = true
  | _ => True

def step (manager : ProcessManager) : ProcessStep → ProcessManager
  | .spawn entry => manager.spawnJob entry
  | .attach clientId jobId role => (manager.attachFg clientId jobId role).1
  | .claim clientId => (manager.claimFgControl clientId).1
  | .release clientId => (manager.releaseFgControl clientId).1
  | .detach clientId reason => manager.detachFg clientId reason
  | .kill jobId => manager.killJob jobId
  | .cleanup => manager.cleanup
  | .rehash children => { manager with children := children }
  | .chunk jobId data => manager.recordPtyOutput jobId data
  | .emit jobId => manager.emitNext jobId
  | .exit jobId reason => manager.closeForeground jobId reason
  | .notify jobId => manager.notifyCleanup jobId

/-- The states that steps lead to which are enabled and allowed where they are taken, in any order. -/
inductive Reachable (allowed : ProcessManager → ProcessStep → Prop) : ProcessManager → Prop
  | start : Reachable allowed initial
  | step {state : ProcessManager} (before : Reachable allowed state) (step : ProcessStep)
      (enabled : state.Enabled step) (permitted : allowed state step) : Reachable allowed (state.step step)

end ProcessManager

end CueShell
