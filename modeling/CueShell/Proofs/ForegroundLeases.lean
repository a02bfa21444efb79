import CueShell.Proofs.ForegroundMoves

/-! # Attachments over the moves of a job

Every attachment has an id of its own and is told once that it has ended: either its client still
observes the job under that id, or one end was addressed to it.
-/

namespace CueShell

variable {view next : JobView}

/-- The events of a job, those included that its reader has still to send. -/
def JobView.history (view : JobView) : List ForegroundEvent := view.sent ++ view.task.outgoing

/-- The end of an attachment. -/
def ForegroundEvent.isExit (clientId attachmentId : ℕ) (event : ForegroundEvent) : Bool :=
  event.clientId == clientId &&
    match event.payload with
    | .fgExited id _ => id == attachmentId
    | _ => false

/-- How often an attachment is told that it has ended. -/
def exitsOf (events : List ForegroundEvent) (record : AttachRecord) : ℕ :=
  events.countP (ForegroundEvent.isExit record.clientId record.info.attachmentId)

/-- The attachment that an event is about. -/
def ForegroundPayload.attachmentId : ForegroundPayload → ℕ
  | .fgOutput id _ | .fgExited id _ | .fgControlChanged id _ => id

/-- The attachment has not ended. -/
def JobView.Attached (view : JobView) (record : AttachRecord) : Prop :=
  view.task.foreground.observers.get record.clientId = some record.info.attachmentId

/-- The end of an attachment was addressed to it once when it has ended, and not before. -/
structure JobView.EndsOnce (view : JobView) (record : AttachRecord) : Prop where
  attached : view.Attached record → exitsOf view.history record = 0
  ended : ¬ view.Attached record → exitsOf view.history record = 1

theorem JobView.EndsOnce.congr {record : AttachRecord} (once : view.EndsOnce record)
    (same : next.Attached record ↔ view.Attached record)
    (exits : exitsOf next.history record = exitsOf view.history record) : next.EndsOnce record where
  attached := fun here => exits.trans (once.attached (same.mp here))
  ended := fun gone => exits.trans (once.ended fun here => gone (same.mpr here))

/-- What holds of one job. -/
structure Leased (view : JobView) : Prop where
  controller : ∀ clientId, view.task.foreground.controller = some clientId →
    view.task.foreground.observes clientId
  closed : view.task.foreground.closed = true → ∀ clientId,
    view.task.foreground.observers.get clientId = none
  increasing : (view.attached.map fun record => record.info.attachmentId).Pairwise (· < ·)
  allotted : ∀ record ∈ view.attached, 0 < record.info.attachmentId ∧
    record.info.attachmentId ≤ view.task.foreground.lastAttachmentId
  recorded : ∀ clientId attachmentId, view.task.foreground.observers.get clientId = some attachmentId →
    ∃ record ∈ view.attached, record.clientId = clientId ∧ record.info.attachmentId = attachmentId
  past : ∀ event ∈ view.history,
    event.Quiet ∨ event.payload.attachmentId ≤ view.task.foreground.lastAttachmentId
  exits : ∀ record ∈ view.attached, view.EndsOnce record

section Events

theorem exitsOf_append (first second : List ForegroundEvent) (record : AttachRecord) :
    exitsOf (first ++ second) record = exitsOf first record + exitsOf second record :=
  List.countP_append

/-- Quiet events end nothing. -/
theorem exitsOf_quiet {told : List ForegroundEvent} (quiet : ∀ event ∈ told, event.Quiet)
    (record : AttachRecord) : exitsOf told record = 0 := by
  refine List.countP_eq_zero.mpr fun event member => ?_
  rcases quiet event member with ⟨id, available, payload⟩ | ⟨data, payload⟩
  · simp [ForegroundEvent.isExit, payload]
  · simp [ForegroundEvent.isExit, payload]

/-- Output ends nothing. -/
theorem exitsOf_output (recipients : List ForegroundRecipient) (data : List UInt8) (record : AttachRecord) :
    exitsOf (recipients.map fun recipient =>
      ⟨recipient.clientId, .fgOutput recipient.attachmentId data⟩) record = 0 := by
  refine List.countP_eq_zero.mpr fun event member => ?_
  obtain ⟨recipient, -, rfl⟩ := List.mem_map.mp member
  simp [ForegroundEvent.isExit]

/-- The end of a foreground is told to each recipient once. -/
theorem exitsOf_close {recipients : List ForegroundRecipient} (single : recipients.Nodup) (reason : String)
    (record : AttachRecord) :
    exitsOf (recipients.map fun recipient =>
      ⟨recipient.clientId, .fgExited recipient.attachmentId reason⟩) record =
      if ⟨record.clientId, record.info.attachmentId⟩ ∈ recipients then 1 else 0 := by
  rw [exitsOf, List.countP_map]
  have same : (ForegroundEvent.isExit record.clientId record.info.attachmentId ∘ fun recipient =>
      (⟨recipient.clientId, .fgExited recipient.attachmentId reason⟩ : ForegroundEvent)) =
      (· == (⟨record.clientId, record.info.attachmentId⟩ : ForegroundRecipient)) := by
    funext recipient
    obtain ⟨clientId, attachmentId⟩ := recipient
    rw [Bool.eq_iff_iff]
    simp [ForegroundEvent.isExit]
  rw [same, ← List.count_eq_countP]
  split
  · rename_i member
    exact List.count_eq_one_of_mem single member
  · rename_i absent
    exact List.count_eq_zero_of_not_mem absent

end Events

section Facts

/-- Records are told apart by their ids. -/
theorem Leased.eq_of_id (leased : Leased view) {record other : AttachRecord} (here : record ∈ view.attached)
    (there : other ∈ view.attached) (same : record.info.attachmentId = other.info.attachmentId) :
    record = other := by
  have distinct : (view.attached.map fun record => record.info.attachmentId).Nodup :=
    leased.increasing.imp fun lower => Nat.ne_of_lt lower
  exact List.inj_on_of_nodup_map distinct here there same

/-- Observers are told apart by the ids of their attachments. -/
theorem Leased.client_of_id (leased : Leased view) {first second attachmentId : ℕ}
    (here : view.task.foreground.observers.get first = some attachmentId)
    (there : view.task.foreground.observers.get second = some attachmentId) : first = second := by
  obtain ⟨record, member, client, id⟩ := leased.recorded _ _ here
  obtain ⟨other, member', client', id'⟩ := leased.recorded _ _ there
  rw [← client, ← client', leased.eq_of_id member member' (id.trans id'.symm)]

/-- An end that carries an id which has not been allotted was not sent. -/
theorem Leased.exitsOf_future (leased : Leased view) {record : AttachRecord}
    (future : view.task.foreground.lastAttachmentId < record.info.attachmentId) :
    exitsOf view.history record = 0 := by
  refine List.countP_eq_zero.mpr fun event member ended => ?_
  rw [ForegroundEvent.isExit] at ended
  rcases leased.past event member with quiet | old
  · rcases quiet with ⟨id, available, payload⟩ | ⟨data, payload⟩ <;> simp [payload] at ended
  · cases payload : event.payload with
    | fgOutput id data => simp [payload] at ended
    | fgControlChanged id available => simp [payload] at ended
    | fgExited id reason =>
      simp only [payload, Bool.and_eq_true, beq_iff_eq] at ended
      rw [payload, ForegroundPayload.attachmentId, ended.2] at old
      omega

end Facts

section Moves

variable {task : JobTask}

theorem leased_fresh : Leased ⟨.fresh, [], []⟩ where
  controller := fun _ held => by cases held
  closed := fun isClosed => by cases isClosed
  increasing := List.Pairwise.nil
  allotted := fun _ member => by cases member
  recorded := fun _ _ found => by cases found
  past := fun _ member => by cases member
  exits := fun _ member => by cases member

/-- Quiet events between those that were sent and those that will be. -/
theorem history_told (sent told : List ForegroundEvent) (record : AttachRecord)
    (outgoing : List ForegroundEvent) (quiet : ∀ event ∈ told, event.Quiet) :
    exitsOf (sent ++ told ++ outgoing) record = exitsOf (sent ++ outgoing) record := by
  rw [exitsOf_append, exitsOf_append, exitsOf_quiet quiet, exitsOf_append, Nat.add_zero]

/-- The attachments of before are attached as they were. -/
theorem Leased.attached_attach {clientId : ℕ} {record : AttachRecord} (leased : Leased view)
    (new : view.task.foreground.observers.get clientId = none) (member : record ∈ view.attached) :
    (view.task.foreground.observers.insert clientId (view.task.foreground.lastAttachmentId + 1)).get
        record.clientId = some record.info.attachmentId ↔ view.Attached record := by
  have bounds := leased.allotted record member
  rw [Table.get_insert, JobView.Attached]
  split
  · rename_i same
    rw [same, new]
    simp only [Option.some.injEq, reduceCtorEq, iff_false]
    omega
  · rfl

theorem Leased.attach {clientId : ℕ} {role : ForegroundRole} {state : ForegroundState}
    {outcome : ForegroundAttachOutcome} {info : ForegroundAttachmentInfo} {told : List ForegroundEvent}
    {position retained : ℕ} (leased : Leased view)
    (done : view.task.foreground.attach clientId role = .ok (state, outcome))
    (id : info.attachmentId = outcome.attachmentId) (quiet : ∀ event ∈ told, event.Quiet) :
    Leased
      { task := { view.task with foreground := state }
        sent := view.sent ++ told
        attached := view.attached ++ [⟨clientId, info, position, retained⟩] } := by
  obtain ⟨isOpen, new, allotted, rfl⟩ := ForegroundState.attach_ok done
  rw [allotted] at id
  refine
    { controller := ?controller, closed := ?closed, increasing := ?increasing, allotted := ?allotted,
      recorded := ?recorded, past := ?past, exits := ?exits }
  case controller =>
    intro other held
    dsimp only [ForegroundState.observes] at held ⊢
    rw [Table.get_insert]
    split
    · rfl
    · rename_i differs
      split at held
      · exact absurd (Option.some.inj held).symm differs
      · exact leased.controller other held
  case closed =>
    intro isClosed
    dsimp only at isClosed
    rw [isOpen] at isClosed
    cases isClosed
  case increasing =>
    rw [List.map_append, List.pairwise_append]
    refine ⟨leased.increasing, List.pairwise_singleton _ _, fun first here second there => ?_⟩
    obtain ⟨record, member, rfl⟩ := List.mem_map.mp here
    have old := (leased.allotted record member).2
    simp only [List.map_cons, List.map_nil, List.mem_singleton] at there
    omega
  case allotted =>
    intro record member
    dsimp only
    rcases List.mem_append.mp member with old | last
    · have bounds := leased.allotted record old
      omega
    · rw [List.mem_singleton.mp last]
      dsimp only
      omega
  case recorded =>
    intro other attachmentId found
    dsimp only at found
    rw [Table.get_insert] at found
    split at found
    · rename_i same
      cases found
      exact ⟨_, List.mem_append_right _ (List.mem_singleton.mpr rfl), same.symm, id⟩
    · obtain ⟨record, member, rest⟩ := leased.recorded other attachmentId found
      exact ⟨record, List.mem_append_left _ member, rest⟩
  case past =>
    intro event member
    dsimp only [JobView.history] at member ⊢
    rw [List.append_assoc, List.mem_append, List.mem_append] at member
    rcases member with sent | heard | outgoing
    · exact (leased.past event (List.mem_append_left _ sent)).imp_right (Nat.le_succ_of_le)
    · exact .inl (quiet event heard)
    · exact (leased.past event (List.mem_append_right _ outgoing)).imp_right (Nat.le_succ_of_le)
  case exits =>
    intro record member
    have told := history_told view.sent told record view.task.outgoing quiet
    rcases List.mem_append.mp member with old | last
    · exact (leased.exits record old).congr (leased.attached_attach new old) told
    · obtain rfl := List.mem_singleton.mp last
      have none := told.trans (leased.exitsOf_future (by dsimp only; omega))
      refine ⟨fun _ => none, fun gone => absurd ?_ gone⟩
      dsimp only [JobView.Attached]
      rw [Table.get_insert, if_pos rfl, id]

theorem Leased.control {controller : Option ℕ} {told : List ForegroundEvent} (leased : Leased view)
    (observes : ∀ clientId, controller = some clientId →
      view.task.foreground.controller = some clientId ∨ view.task.foreground.observes clientId)
    (quiet : ∀ event ∈ told, event.Quiet) :
    Leased
      { view with
        task := { view.task with foreground := { view.task.foreground with controller := controller } }
        sent := view.sent ++ told } where
  controller := fun clientId held => by
    rcases observes clientId held with kept | listed
    · exact leased.controller clientId kept
    · exact listed
  closed := leased.closed
  increasing := leased.increasing
  allotted := leased.allotted
  recorded := leased.recorded
  past := fun event member => by
    dsimp only [JobView.history] at member
    rw [List.append_assoc, List.mem_append, List.mem_append] at member
    rcases member with sent | heard | outgoing
    · exact leased.past event (List.mem_append_left _ sent)
    · exact .inl (quiet event heard)
    · exact leased.past event (List.mem_append_right _ outgoing)
  exits := fun record member =>
    (leased.exits record member).congr Iff.rfl (history_told _ _ _ _ quiet)

theorem Leased.detach {clientId attachmentId : ℕ} {state : ForegroundState}
    {recipients : Option (List ForegroundRecipient)} {reason : String} {told : List ForegroundEvent}
    (leased : Leased view)
    (done : view.task.foreground.detach clientId = some (state, attachmentId, recipients))
    (quiet : ∀ event ∈ told, event.Quiet) :
    Leased
      { view with
        task := { view.task with foreground := state }
        sent := view.sent ++ ⟨clientId, .fgExited attachmentId reason⟩ :: told } := by
  obtain ⟨found, rfl⟩ := ForegroundState.detach_some done
  obtain ⟨mine, mine_member, mine_client, mine_id⟩ := leased.recorded _ _ found
  refine
    { controller := ?controller, closed := ?closed, increasing := leased.increasing,
      allotted := leased.allotted, recorded := ?recorded, past := ?past, exits := ?exits }
  case controller =>
    intro other held
    dsimp only at held
    split at held
    · cases held
    · rename_i differs
      have listed := leased.controller other held
      dsimp only [ForegroundState.observes] at listed ⊢
      rw [Table.get_erase, if_neg]
      · exact listed
      · rintro rfl
        exact differs held
  case closed =>
    intro isClosed
    rw [leased.closed isClosed clientId] at found
    cases found
  case recorded =>
    intro other id listed
    dsimp only at listed
    rw [Table.get_erase] at listed
    split at listed
    · cases listed
    · exact leased.recorded other id listed
  case past =>
    intro event member
    dsimp only [JobView.history] at member
    rw [List.append_assoc, List.mem_append, List.cons_append, List.mem_cons, List.mem_append] at member
    rcases member with sent | rfl | heard | outgoing
    · exact leased.past event (List.mem_append_left _ sent)
    · refine .inr ?_
      rw [ForegroundPayload.attachmentId, ← mine_id]
      exact (leased.allotted mine mine_member).2
    · exact .inl (quiet event heard)
    · exact leased.past event (List.mem_append_right _ outgoing)
  case exits =>
    intro record member
    have once := leased.exits record member
    have count : exitsOf (view.sent ++ ⟨clientId, .fgExited attachmentId reason⟩ :: told ++
        view.task.outgoing) record =
        exitsOf view.history record + exitsOf [⟨clientId, .fgExited attachmentId reason⟩] record := by
      rw [JobView.history, exitsOf_append, ← List.singleton_append, exitsOf_append, exitsOf_append,
        exitsOf_quiet quiet, exitsOf_append]
      omega
    by_cases same : record = mine
    · subst same
      have one : exitsOf [⟨clientId, .fgExited attachmentId reason⟩] record = 1 := by
        simp [exitsOf, ForegroundEvent.isExit, mine_client, mine_id]
      have attached : view.Attached record := by rw [JobView.Attached, mine_client, mine_id, found]
      refine ⟨fun here => ?_, fun _ => by rw [JobView.history, count, once.attached attached, one]⟩
      dsimp only [JobView.Attached] at here
      rw [mine_client, Table.get_erase, if_pos rfl] at here
      cases here
    · have other : record.info.attachmentId ≠ attachmentId := fun equal =>
        same (leased.eq_of_id member mine_member (equal.trans mine_id.symm))
      have zero : exitsOf [⟨clientId, .fgExited attachmentId reason⟩] record = 0 := by
        simp [exitsOf, ForegroundEvent.isExit, Ne.symm other]
      refine once.congr ?_ (by rw [JobView.history, count, zero, Nat.add_zero])
      dsimp only [JobView.Attached]
      rw [Table.get_erase]
      split
      · rename_i client
        rw [client, found]
        simp only [reduceCtorEq, Option.some.injEq, false_iff]
        exact Ne.symm other
      · rfl

theorem Leased.chunk (leased : Leased view) (data : List UInt8) (idle : view.task.outgoing = []) :
    Leased
      { view with
        task :=
          { view.task with
            ring := view.task.ring.push data
            recorded := view.task.recorded ++ data
            outgoing := (if view.task.foreground.closed then [] else view.task.foreground.recipients).map
              fun recipient => ⟨recipient.clientId, .fgOutput recipient.attachmentId data⟩ } } where
  controller := leased.controller
  closed := leased.closed
  increasing := leased.increasing
  allotted := leased.allotted
  recorded := leased.recorded
  past := fun event member => by
    rcases List.mem_append.mp member with sent | outgoing
    · exact leased.past event (List.mem_append_left _ sent)
    · obtain ⟨recipient, listed, rfl⟩ := List.mem_map.mp outgoing
      refine .inr ?_
      split at listed
      · cases listed
      · obtain ⟨record, known, -, id⟩ :=
          leased.recorded _ _ (ForegroundState.mem_recipients.mp listed)
        rw [ForegroundPayload.attachmentId, ← id]
        exact (leased.allotted record known).2
  exits := fun record member => by
    refine (leased.exits record member).congr Iff.rfl ?_
    rw [JobView.history, JobView.history, exitsOf_append, exitsOf_output, idle, List.append_nil, Nat.add_zero]

theorem Leased.emit {event : ForegroundEvent} {rest : List ForegroundEvent} (leased : Leased view)
    (first : view.task.outgoing = event :: rest) :
    Leased { view with task := { view.task with outgoing := rest }, sent := view.sent ++ [event] } := by
  have history : (view.sent ++ [event]) ++ rest = view.history := by
    rw [JobView.history, first, List.append_assoc]
    rfl
  exact
    { controller := leased.controller
      closed := leased.closed
      increasing := leased.increasing
      allotted := leased.allotted
      recorded := leased.recorded
      past := fun event member => leased.past event (history ▸ member)
      exits := fun record member =>
        (leased.exits record member).congr Iff.rfl (congrArg (exitsOf · record) history) }

theorem Leased.close (leased : Leased view) (reason : String) (idle : view.task.outgoing = []) :
    Leased
      { view with
        task :=
          { view.task with
            foreground := view.task.foreground.close
            outgoing := view.task.foreground.recipients.map fun recipient =>
              ⟨recipient.clientId, .fgExited recipient.attachmentId reason⟩ } } where
  controller := fun _ held => by cases held
  closed := fun _ _ => rfl
  increasing := leased.increasing
  allotted := leased.allotted
  recorded := fun _ _ found => by cases found
  past := fun event member => by
    rcases List.mem_append.mp member with sent | outgoing
    · exact leased.past event (List.mem_append_left _ sent)
    · obtain ⟨recipient, listed, rfl⟩ := List.mem_map.mp outgoing
      obtain ⟨record, known, -, id⟩ := leased.recorded _ _ (ForegroundState.mem_recipients.mp listed)
      refine .inr ?_
      rw [ForegroundPayload.attachmentId, ← id]
      exact (leased.allotted record known).2
  exits := fun record member => by
    have once := leased.exits record member
    have told : exitsOf (view.sent ++ view.task.foreground.recipients.map fun recipient =>
        ⟨recipient.clientId, .fgExited recipient.attachmentId reason⟩) record = 1 := by
      have history : view.history = view.sent := by rw [JobView.history, idle, List.append_nil]
      rw [exitsOf_append, exitsOf_close ForegroundState.nodup_recipients, ← history]
      split
      · rename_i listed
        rw [once.attached (ForegroundState.mem_recipients.mp listed)]
      · rename_i absent
        rw [once.ended fun here => absent (ForegroundState.mem_recipients.mpr here)]
    refine ⟨fun here => ?_, fun _ => told⟩
    cases here

theorem Leased.move (leased : Leased view) (move : JobMove view next) : Leased next := by
  cases move with
  | attach done id snapshot quiet => exact leased.attach done id quiet
  | control controller observes quiet => exact leased.control observes quiet
  | detach reason done quiet => exact leased.detach done quiet
  | chunk data idle => exact leased.chunk data idle
  | emit first => exact leased.emit first
  | close reason idle isOpen => exact leased.close reason idle

theorem Leased.moves (leased : Leased view) (moves : JobMoves view next) : Leased next := by
  induction moves with
  | refl => exact leased
  | tail _ move ih => exact ih.move move

end Moves

/-- What holds of every job of every state that steps lead to. -/
theorem ProcessManager.Reachable.leased {allowed : ProcessManager → ProcessStep → Prop}
    {manager : ProcessManager} (run : Reachable allowed manager) (jobId : JobId) :
    Leased (manager.view jobId) := by
  induction run with
  | start => exact leased_fresh
  | step _ step enabled _ ih => exact ih.moves (step_moves enabled jobId)

end CueShell
