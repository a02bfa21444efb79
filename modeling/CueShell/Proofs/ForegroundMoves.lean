import CueShell.Model.Foreground
import Mathlib.Logic.Relation

/-! # The moves of one job

A step of the process manager changes what there is of each job by a few kinds of moves: its foreground
and ring buffer, the events that were sent about it, those its reader has still to send, and the
attachments that were handed out for it.
-/

namespace CueShell

/-- What there is of one job. -/
structure JobView where
  task : JobTask
  sent : List ForegroundEvent
  attached : List AttachRecord

/-- What a list with jobs says of one of them. -/
def ofJob {α : Type} (jobId : JobId) (items : List (JobId × α)) : List α :=
  (items.filter (·.1 = jobId)).map Prod.snd

theorem ofJob_append {α : Type} (jobId : JobId) (first second : List (JobId × α)) :
    ofJob jobId (first ++ second) = ofJob jobId first ++ ofJob jobId second := by
  simp [ofJob]

theorem ofJob_same {α : Type} (jobId : JobId) (items : List α) :
    ofJob jobId (items.map (jobId, ·)) = items := by
  rw [ofJob, List.filter_eq_self.mpr (by simp), List.map_map]
  exact List.map_id _

theorem ofJob_other {α : Type} {jobId other : JobId} (differs : other ≠ jobId) (items : List α) :
    ofJob jobId (items.map (other, ·)) = [] := by
  rw [ofJob, List.filter_eq_nil_iff.mpr (by simp [differs])]
  rfl

namespace ProcessManager

variable {manager : ProcessManager} {jobId other : JobId}

def view (manager : ProcessManager) (jobId : JobId) : JobView where
  task := manager.task jobId
  sent := ofJob jobId manager.sent
  attached := ofJob jobId manager.attached

theorem task_setTask (manager : ProcessManager) (jobId other : JobId) (task : JobTask) :
    (manager.setTask jobId task).task other = if other = jobId then task else manager.task other := by
  simp only [ProcessManager.task, setTask, Table.get_insert]
  split <;> rfl

theorem view_setTask_other (differs : other ≠ jobId) (task : JobTask) :
    (manager.setTask jobId task).view other = manager.view other := by
  simp only [view, task_setTask, if_neg differs]
  rfl

theorem view_setTask (jobId : JobId) (task : JobTask) :
    (manager.setTask jobId task).view jobId = { manager.view jobId with task := task } := by
  simp only [view, task_setTask, if_pos]
  rfl

theorem view_send_other (differs : other ≠ jobId) (events : List ForegroundEvent) :
    (manager.send jobId events).view other = manager.view other := by
  have none : ofJob other (events.map (jobId, ·)) = [] := ofJob_other (Ne.symm differs) events
  simp only [view, send, ofJob_append, none, List.append_nil]
  rfl

theorem view_send (jobId : JobId) (events : List ForegroundEvent) :
    (manager.send jobId events).view jobId =
      { manager.view jobId with sent := (manager.view jobId).sent ++ events } := by
  simp only [view, send, ofJob_append, ofJob_same]
  rfl

theorem view_register_other (differs : other ≠ jobId) (record : AttachRecord) :
    (manager.register jobId record).view other = manager.view other := by
  have none : ofJob other [(jobId, record)] = [] := ofJob_other (Ne.symm differs) [record]
  simp only [view, register, ofJob_append, none, List.append_nil]
  rfl

theorem view_register (jobId : JobId) (record : AttachRecord) :
    (manager.register jobId record).view jobId =
      { manager.view jobId with attached := (manager.view jobId).attached ++ [record] } := by
  have one : ofJob jobId [(jobId, record)] = [record] := ofJob_same jobId [record]
  simp only [view, register, ofJob_append, one]
  rfl

end ProcessManager

/-- An event that neither ends an attachment nor belongs to the output of one. -/
def ForegroundEvent.Quiet (event : ForegroundEvent) : Prop :=
  (∃ attachmentId available, event.payload = .fgControlChanged attachmentId available) ∨
    ∃ data, event.payload = .fgOutput 0 data

/-- What can happen to one job. -/
inductive JobMove : JobView → JobView → Prop
  | attach (view : JobView) {clientId : ℕ} {role : ForegroundRole} {next : ForegroundState}
      {outcome : ForegroundAttachOutcome} {info : ForegroundAttachmentInfo} {told : List ForegroundEvent}
      (done : view.task.foreground.attach clientId role = .ok (next, outcome))
      (id : info.attachmentId = outcome.attachmentId)
      (snapshot : info.snapshot = (view.task.ring.tailWithTruncation RingBuffer.defaultCapacity).1)
      (quiet : ∀ event ∈ told, event.Quiet) :
      JobMove view
        { task := { view.task with foreground := next }
          sent := view.sent ++ told
          attached := view.attached ++
            [⟨clientId, info, view.task.recorded.length, view.task.ring.len⟩] }
  | control (view : JobView) (controller : Option ℕ) {told : List ForegroundEvent}
      (observes : ∀ clientId, controller = some clientId →
        view.task.foreground.controller = some clientId ∨ view.task.foreground.observes clientId)
      (quiet : ∀ event ∈ told, event.Quiet) :
      JobMove view
        { view with
          task := { view.task with foreground := { view.task.foreground with controller := controller } }
          sent := view.sent ++ told }
  | detach (view : JobView) (reason : String) {clientId attachmentId : ℕ} {next : ForegroundState}
      {recipients : Option (List ForegroundRecipient)} {told : List ForegroundEvent}
      (done : view.task.foreground.detach clientId = some (next, attachmentId, recipients))
      (quiet : ∀ event ∈ told, event.Quiet) :
      JobMove view
        { view with
          task := { view.task with foreground := next }
          sent := view.sent ++ ⟨clientId, .fgExited attachmentId reason⟩ :: told }
  | chunk (view : JobView) (data : List UInt8) (idle : view.task.outgoing = []) :
      JobMove view
        { view with
          task :=
            { view.task with
              ring := view.task.ring.push data
              recorded := view.task.recorded ++ data
              outgoing := (if view.task.foreground.closed then [] else view.task.foreground.recipients).map
                fun recipient => ⟨recipient.clientId, .fgOutput recipient.attachmentId data⟩ } }
  | emit (view : JobView) {event : ForegroundEvent} {rest : List ForegroundEvent}
      (next : view.task.outgoing = event :: rest) :
      JobMove view
        { view with task := { view.task with outgoing := rest }, sent := view.sent ++ [event] }
  | close (view : JobView) (reason : String) (idle : view.task.outgoing = [])
      (isOpen : view.task.foreground.closed = false) :
      JobMove view
        { view with
          task :=
            { view.task with
              foreground := view.task.foreground.close
              outgoing := view.task.foreground.recipients.map fun recipient =>
                ⟨recipient.clientId, .fgExited recipient.attachmentId reason⟩ } }

abbrev JobMoves : JobView → JobView → Prop := Relation.ReflTransGen JobMove

namespace ForegroundState

variable {state next : ForegroundState} {clientId : ℕ}

/-- When and how an attachment is made. -/
theorem attach_ok {role : ForegroundRole} {outcome : ForegroundAttachOutcome}
    (done : state.attach clientId role = .ok (next, outcome)) :
    state.closed = false ∧ state.observers.get clientId = none ∧
      outcome.attachmentId = state.lastAttachmentId + 1 ∧
      next = { state with
        lastAttachmentId := state.lastAttachmentId + 1
        observers := state.observers.insert clientId (state.lastAttachmentId + 1)
        controller := if role = .controller then some clientId else state.controller } := by
  unfold attach at done
  split at done
  · cases done
  rename_i isOpen
  split at done
  · cases done
  rename_i new
  split at done
  · cases done
  split at done
  · cases done
  simp only [Except.ok.injEq, Prod.mk.injEq] at done
  obtain ⟨rfl, rfl⟩ := done
  exact ⟨by simpa using isOpen, by simpa [observes] using new, rfl, rfl⟩

theorem detach_some {attachmentId : ℕ} {recipients : Option (List ForegroundRecipient)}
    (done : state.detach clientId = some (next, attachmentId, recipients)) :
    state.observers.get clientId = some attachmentId ∧
      next = { state with
        observers := state.observers.erase clientId
        controller := if state.controller = some clientId then none else state.controller } := by
  unfold detach at done
  split at done
  · cases done
  rename_i found
  split at done
  · rename_i holds
    cases done
    exact ⟨found, by simp [holds]⟩
  · rename_i other
    cases done
    exact ⟨found, by simp [other]⟩

theorem claimControl_some {taken : Bool} (done : state.claimControl clientId = some (next, taken)) :
    next = { state with controller := next.controller } ∧
      ∀ other, next.controller = some other →
        state.controller = some other ∨ state.observes other := by
  unfold claimControl at done
  split at done
  · cases done
  rename_i listed
  split at done
  · split at done
    · cases done
    · cases done
      exact ⟨rfl, fun other held => .inl held⟩
  · cases done
    refine ⟨rfl, fun other held => .inr ?_⟩
    simp only [Bool.or_eq_true, Bool.not_eq_true', not_or, Bool.not_eq_false] at listed
    rw [← Option.some.inj held]
    exact listed.2

theorem releaseControl_some {released : Bool} (done : state.releaseControl clientId = some (next, released)) :
    next = { state with controller := next.controller } ∧
      ∀ other, next.controller = some other →
        state.controller = some other ∨ state.observes other := by
  unfold releaseControl at done
  split at done
  · cases done
  split at done
  · cases done
    exact ⟨rfl, fun other held => by cases held⟩
  · cases done
    exact ⟨rfl, fun other held => .inl held⟩

/-- The recipients are the observers. -/
theorem mem_recipients {recipient : ForegroundRecipient} :
    recipient ∈ state.recipients ↔
      state.observers.get recipient.clientId = some recipient.attachmentId := by
  simp only [recipients, List.mem_filterMap, Finset.mem_sort, Option.map_eq_some_iff]
  constructor
  · rintro ⟨clientId, -, attachmentId, found, rfl⟩
    exact found
  · intro found
    refine ⟨recipient.clientId, ?_, recipient.attachmentId, found, rfl⟩
    rw [state.observers.mem_keys, found]
    rfl

theorem nodup_recipients : state.recipients.Nodup := by
  refine (Finset.sort_nodup _ _).filterMap fun first second recipient here there => ?_
  obtain ⟨id, -, rfl⟩ := Option.map_eq_some_iff.mp here
  obtain ⟨id', -, same⟩ := Option.map_eq_some_iff.mp there
  exact (congrArg ForegroundRecipient.clientId same).symm

end ForegroundState

theorem quiet_fgControlChanged (recipients : List ForegroundRecipient) (available : Bool) :
    ∀ event ∈ fgControlChanged recipients available, event.Quiet := by
  intro event member
  obtain ⟨recipient, -, rfl⟩ := List.mem_map.mp member
  exact .inl ⟨_, _, rfl⟩

theorem attachForeground_ok {entry : ProcessEntry} {task : JobTask} {clientId : ℕ} {role : ForegroundRole}
    {next : ForegroundState} {info : ForegroundAttachmentInfo}
    {recipients : Option (List ForegroundRecipient)}
    (done : attachForeground entry task clientId role = .ok (next, info, recipients)) :
    ∃ outcome, task.foreground.attach clientId role = .ok (next, outcome) ∧
      info.attachmentId = outcome.attachmentId ∧
      info.snapshot = (task.ring.tailWithTruncation RingBuffer.defaultCapacity).1 := by
  unfold attachForeground at done
  split at done
  · cases done
  split at done
  · cases done
  split at done
  all_goals try cases done
  rename_i outcome attached
  exact ⟨outcome, attached, rfl, rfl⟩

namespace ProcessManager

variable {manager : ProcessManager} {jobId : JobId}

/-- What a change of control may do to a foreground. -/
def ChangesControl (change : ProcessEntry → ForegroundState → ℕ →
    Except String (ForegroundState × ForegroundRoleUpdate × Option (List ForegroundRecipient))) : Prop :=
  ∀ entry state clientId next update recipients, change entry state clientId = .ok (next, update, recipients) →
    next = { state with controller := next.controller } ∧
      ∀ other, next.controller = some other → state.controller = some other ∨ state.observes other

theorem changesControl_claim : ChangesControl claimForegroundControl := by
  intro entry state clientId next update recipients done
  unfold claimForegroundControl at done
  split at done
  · cases done
  split at done
  · cases done
  split at done
  · cases done
  split at done
  · rename_i claimed
    cases done
    exact ForegroundState.claimControl_some claimed
  · cases done

theorem changesControl_release : ChangesControl releaseForegroundControl := by
  intro entry state clientId next update recipients done
  unfold releaseForegroundControl at done
  split at done
  · cases done
  split at done
  · cases done
  split at done
  · rename_i released
    cases done
    exact ForegroundState.releaseControl_some released
  · cases done

theorem changeControl_moves {change : ProcessEntry → ForegroundState → ℕ →
    Except String (ForegroundState × ForegroundRoleUpdate × Option (List ForegroundRecipient))}
    (changes : ChangesControl change) (clientId : ℕ) (available : Bool) (jobId : JobId) :
    JobMoves (manager.view jobId) ((manager.changeControl clientId available change).1.view jobId) := by
  unfold changeControl
  split
  · exact .refl
  rename_i entry _
  split
  · exact .refl
  rename_i next update recipients done
  obtain ⟨same, observes⟩ := changes _ _ _ _ _ _ done
  by_cases here : jobId = entry.jobId
  · subst here
    refine .single ?_
    have move := JobMove.control (manager.view entry.jobId) next.controller observes
      (quiet_fgControlChanged (recipients.getD []) available)
    rw [emitFgControlChanged, view_send, setForeground, view_setTask]
    rw [same]
    exact move
  · rw [emitFgControlChanged, view_send_other here, setForeground, view_setTask_other here]

theorem detachEntries_moves (clientId : ℕ) (reason : String) (entries : List ProcessEntry) (jobId : JobId) :
    JobMoves (manager.view jobId) ((detachEntries clientId reason entries manager).view jobId) := by
  induction entries generalizing manager with
  | nil => exact .refl
  | cons entry rest ih =>
    rw [detachEntries]
    split
    · exact ih
    · rename_i next attachmentId recipients done
      refine .trans ?_ ih
      by_cases here : jobId = entry.jobId
      · subst here
        refine .single ?_
        have move := JobMove.detach (manager.view entry.jobId) reason done
          (quiet_fgControlChanged (recipients.getD []) true)
        rw [emitFgControlChanged, view_send, view_send, setForeground, view_setTask, List.append_assoc]
        exact move
      · rw [emitFgControlChanged, view_send_other here, view_send_other here, setForeground,
          view_setTask_other here]

theorem attachFg_moves (clientId : ℕ) (target : JobId) (role : ForegroundRole) (jobId : JobId) :
    JobMoves (manager.view jobId) ((manager.attachFg clientId target role).1.view jobId) := by
  unfold attachFg
  split
  · exact .refl
  split
  · exact .refl
  rename_i entry _
  split
  · exact .refl
  rename_i next info recipients done
  obtain ⟨outcome, attached, id, snapshot⟩ := attachForeground_ok done
  dsimp only
  by_cases here : jobId = target
  · subst here
    refine .single ?_
    have quiet : ∀ event ∈ (if role = .controller ∧ info.snapshot ≠ [] then
        [(⟨clientId, .fgOutput 0 info.snapshot⟩ : ForegroundEvent)] else []) ++
          fgControlChanged (recipients.getD []) false, event.Quiet := by
      intro event member
      rcases List.mem_append.mp member with old | changed
      · split at old
        · rw [List.mem_singleton.mp old]
          exact .inr ⟨_, rfl⟩
        · cases old
      · exact quiet_fgControlChanged _ _ event changed
    have move := JobMove.attach (manager.view jobId) attached id snapshot quiet
    rw [emitFgControlChanged, view_send, view_send, view_register, setForeground, view_setTask,
      List.append_assoc]
    exact move
  · rw [emitFgControlChanged, view_send_other here, view_send_other here, view_register_other here,
      setForeground, view_setTask_other here]

theorem spawnJob_view (entry : ProcessEntry) (jobId : JobId) :
    (manager.spawnJob entry).view jobId = manager.view jobId := by
  unfold spawnJob
  split
  · rfl
  · rename_i new
    have absent : manager.tasks.get entry.jobId = none := by simpa using new
    have same : (manager.setTask entry.jobId .fresh).task jobId = manager.task jobId := by
      rw [task_setTask]
      split
      · rename_i here
        rw [here, ProcessManager.task, absent]
        rfl
      · rfl
    exact congrArg (JobView.mk · (ofJob jobId manager.sent) (ofJob jobId manager.attached)) same

/-- Every step is a few moves of every job. -/
theorem step_moves {step : ProcessStep} (enabled : manager.Enabled step) (jobId : JobId) :
    JobMoves (manager.view jobId) ((manager.step step).view jobId) := by
  cases step with
  | spawn entry =>
    rw [ProcessManager.step, spawnJob_view]
  | attach clientId target role => exact attachFg_moves clientId target role jobId
  | claim clientId => exact changeControl_moves changesControl_claim clientId false jobId
  | release clientId => exact changeControl_moves changesControl_release clientId true jobId
  | detach clientId reason => exact detachEntries_moves clientId reason _ jobId
  | kill target => exact .refl
  | cleanup =>
    rw [ProcessManager.step, cleanup]
    split
    · exact .refl
    · exact .refl
  | rehash children => exact .refl
  | chunk target data =>
    by_cases here : jobId = target
    · subst here
      refine .single ?_
      have move := JobMove.chunk (manager.view jobId) data enabled.1
      rw [ProcessManager.step, recordPtyOutput, view_setTask]
      dsimp only
      rw [enabled.1, List.nil_append]
      exact move
    · rw [ProcessManager.step, recordPtyOutput, view_setTask_other here]
  | emit target =>
    rw [ProcessManager.step, emitNext]
    split
    · exact .refl
    · rename_i event rest next
      by_cases here : jobId = target
      · subst here
        refine .single ?_
        have move := JobMove.emit (manager.view jobId) next
        rw [view_send, view_setTask]
        exact move
      · rw [view_send_other here, view_setTask_other here]
  | exit target reason =>
    rw [ProcessManager.step, closeForeground]
    split
    · exact .refl
    · rename_i isOpen
      by_cases here : jobId = target
      · subst here
        refine .single ?_
        have move := JobMove.close (manager.view jobId) reason enabled.1 (Bool.eq_false_iff.mpr isOpen)
        rw [view_setTask, enabled.1, List.nil_append]
        exact move
      · rw [view_setTask_other here]
  | notify target => exact .refl

end ProcessManager

end CueShell
