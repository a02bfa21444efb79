import CueShell.Proofs.ForegroundLeases
import CueShell.Proofs.RingContents

/-! # Snapshot and live output

The snapshot of an attach is what the ring buffer held when the client was registered, and the output
that follows under the id of the attachment goes on from there: chunk by chunk, up to the last one
that was addressed to it.
-/

namespace CueShell

variable {view next : JobView}

/-- The output that an event carries for an attachment. -/
def ForegroundEvent.output (attachmentId : ℕ) (event : ForegroundEvent) : List UInt8 :=
  match event.payload with
  | .fgOutput id data => if id = attachmentId then data else []
  | _ => []

/-- The output of an attachment, in the order in which it is sent. -/
def outputsOf (events : List ForegroundEvent) (attachmentId : ℕ) : List UInt8 :=
  events.flatMap (ForegroundEvent.output attachmentId)

/-- What holds of the output of one job. -/
structure Streamed (view : JobView) : Prop where
  ring : view.task.ring.Holds view.task.recorded
  capacity : view.task.ring.capacity = RingBuffer.defaultCapacity
  snapshot : ∀ record ∈ view.attached, record.retained ≤ record.position ∧
    record.position ≤ view.task.recorded.length ∧
    record.info.snapshot = (view.task.recorded.take record.position).drop (record.position - record.retained)
  live : ∀ record ∈ view.attached, view.Attached record →
    outputsOf view.history record.info.attachmentId = view.task.recorded.drop record.position
  output : ∀ record ∈ view.attached,
    outputsOf view.history record.info.attachmentId <+: view.task.recorded.drop record.position

section Events

theorem outputsOf_append (first second : List ForegroundEvent) (attachmentId : ℕ) :
    outputsOf (first ++ second) attachmentId = outputsOf first attachmentId ++ outputsOf second attachmentId :=
  List.flatMap_append

/-- Events without output for an attachment. -/
theorem outputsOf_eq_nil {events : List ForegroundEvent} {attachmentId : ℕ}
    (none : ∀ event ∈ events, event.output attachmentId = []) : outputsOf events attachmentId = [] :=
  List.flatMap_eq_nil_iff.mpr none

theorem output_quiet {event : ForegroundEvent} (quiet : event.Quiet) {attachmentId : ℕ}
    (positive : 0 < attachmentId) : event.output attachmentId = [] := by
  rcases quiet with ⟨id, available, payload⟩ | ⟨data, payload⟩
  · rw [ForegroundEvent.output, payload]
  · rw [ForegroundEvent.output, payload]
    exact if_neg (Nat.ne_of_lt positive)

/-- Events in the middle that carry no output for an attachment. -/
theorem outputsOf_told (sent outgoing : List ForegroundEvent) {told : List ForegroundEvent} {attachmentId : ℕ}
    (none : ∀ event ∈ told, event.output attachmentId = []) :
    outputsOf (sent ++ told ++ outgoing) attachmentId = outputsOf (sent ++ outgoing) attachmentId := by
  rw [outputsOf_append, outputsOf_append, outputsOf_eq_nil none, List.append_nil, outputsOf_append]

/-- A chunk for recipients with different ids carries it once for each of them. -/
theorem outputsOf_chunk {recipients : List ForegroundRecipient} (data : List UInt8) (attachmentId : ℕ)
    (distinct : (recipients.map ForegroundRecipient.attachmentId).Nodup) :
    outputsOf (recipients.map fun recipient =>
      ⟨recipient.clientId, .fgOutput recipient.attachmentId data⟩) attachmentId =
      if attachmentId ∈ recipients.map ForegroundRecipient.attachmentId then data else [] := by
  induction recipients with
  | nil => rfl
  | cons first rest ih =>
    rw [List.map_cons, List.nodup_cons] at distinct
    rw [List.map_cons, outputsOf, List.flatMap_cons, ← outputsOf, ih distinct.2, List.map_cons]
    by_cases here : first.attachmentId = attachmentId
    · rw [← here]
      simp [ForegroundEvent.output, distinct.1]
    · simp [ForegroundEvent.output, here, Ne.symm here]

end Events

section Moves

theorem streamed_fresh : Streamed ⟨.fresh, [], []⟩ where
  ring := RingBuffer.holds_new (by decide)
  capacity := rfl
  snapshot := fun _ member => by cases member
  live := fun _ member => by cases member
  output := fun _ member => by cases member

/-- A move that records nothing, addresses no output and attaches nobody. -/
theorem Streamed.keep {task : JobTask} {sent : List ForegroundEvent} (streamed : Streamed view)
    (ring : task.ring = view.task.ring) (recorded : task.recorded = view.task.recorded)
    (attached : ∀ record ∈ view.attached, JobView.Attached ⟨task, sent, view.attached⟩ record →
      view.Attached record)
    (outputs : ∀ record ∈ view.attached, outputsOf (sent ++ task.outgoing) record.info.attachmentId =
      outputsOf view.history record.info.attachmentId) :
    Streamed ⟨task, sent, view.attached⟩ where
  ring := by
    dsimp only
    rw [ring, recorded]
    exact streamed.ring
  capacity := (congrArg RingBuffer.capacity ring).trans streamed.capacity
  snapshot := fun record member => by
    dsimp only
    rw [recorded]
    exact streamed.snapshot record member
  live := fun record member here => by
    dsimp only [JobView.history]
    rw [outputs record member, recorded]
    exact streamed.live record member (attached record member here)
  output := fun record member => by
    dsimp only [JobView.history]
    rw [outputs record member, recorded]
    exact streamed.output record member

/-- An id that has not been allotted has no output. -/
theorem Leased.outputsOf_future (leased : Leased view) {attachmentId : ℕ}
    (future : view.task.foreground.lastAttachmentId < attachmentId) :
    outputsOf view.history attachmentId = [] := by
  refine outputsOf_eq_nil fun event member => ?_
  rcases leased.past event member with quiet | old
  · exact output_quiet quiet (Nat.lt_of_le_of_lt (Nat.zero_le _) future)
  · cases payload : event.payload with
    | fgOutput id data =>
      rw [ForegroundEvent.output, payload]
      rw [payload, ForegroundPayload.attachmentId] at old
      exact if_neg (by omega)
    | fgControlChanged id available => rw [ForegroundEvent.output, payload]
    | fgExited id reason => rw [ForegroundEvent.output, payload]

theorem Streamed.attach {clientId : ℕ} {role : ForegroundRole} {state : ForegroundState}
    {outcome : ForegroundAttachOutcome} {info : ForegroundAttachmentInfo} {told : List ForegroundEvent}
    (streamed : Streamed view) (leased : Leased view)
    (done : view.task.foreground.attach clientId role = .ok (state, outcome))
    (id : info.attachmentId = outcome.attachmentId)
    (snapshot : info.snapshot = (view.task.ring.tailWithTruncation RingBuffer.defaultCapacity).1)
    (quiet : ∀ event ∈ told, event.Quiet) :
    Streamed
      { task := { view.task with foreground := state }
        sent := view.sent ++ told
        attached := view.attached ++
          [⟨clientId, info, view.task.recorded.length, view.task.ring.len⟩] } := by
  obtain ⟨-, new, allotted, rfl⟩ := ForegroundState.attach_ok done
  rw [allotted] at id
  have told_id : ∀ attachmentId, 0 < attachmentId →
      outputsOf (view.sent ++ told ++ view.task.outgoing) attachmentId = outputsOf view.history attachmentId :=
    fun attachmentId positive =>
      outputsOf_told _ _ fun event member => output_quiet (quiet event member) positive
  have none : outputsOf (view.sent ++ told ++ view.task.outgoing) info.attachmentId = [] := by
    rw [told_id _ (by omega), leased.outputsOf_future (by omega)]
  refine ⟨streamed.ring, streamed.capacity, ?snapshot, ?live, ?output⟩
  case snapshot =>
    intro record member
    rcases List.mem_append.mp member with old | last
    · exact streamed.snapshot record old
    · rw [List.mem_singleton.mp last]
      dsimp only
      have len := streamed.ring.len
      refine ⟨by omega, Nat.le_refl _, ?_⟩
      rw [snapshot, streamed.ring.tail (Nat.le_of_eq streamed.capacity), List.take_length]
  case live =>
    intro record member here
    rcases List.mem_append.mp member with old | last
    · have positive := (leased.allotted record old).1
      rw [JobView.history, told_id _ positive]
      exact streamed.live record old ((leased.attached_attach new old).mp here)
    · rw [List.mem_singleton.mp last]
      dsimp only [JobView.history]
      rw [none, List.drop_length]
  case output =>
    intro record member
    rcases List.mem_append.mp member with old | last
    · have positive := (leased.allotted record old).1
      rw [JobView.history, told_id _ positive]
      exact streamed.output record old
    · rw [List.mem_singleton.mp last]
      dsimp only [JobView.history]
      rw [none]
      exact List.nil_prefix

/-- Those to whom a chunk is addressed. -/
def JobView.targets (view : JobView) : List ForegroundRecipient :=
  if view.task.foreground.closed then [] else view.task.foreground.recipients

theorem Leased.nodup_targets (leased : Leased view) :
    (view.targets.map ForegroundRecipient.attachmentId).Nodup := by
  rw [JobView.targets]
  split
  · exact List.nodup_nil
  · refine ForegroundState.nodup_recipients.map_on fun first here second there same => ?_
    have here := ForegroundState.mem_recipients.mp here
    have there := ForegroundState.mem_recipients.mp there
    have clients : first.clientId = second.clientId := leased.client_of_id here (same ▸ there)
    cases first
    cases second
    cases clients
    cases same
    rfl

/-- A chunk is addressed to the attachments that have not ended. -/
theorem Leased.mem_targets (leased : Leased view) {record : AttachRecord} (member : record ∈ view.attached) :
    record.info.attachmentId ∈ view.targets.map ForegroundRecipient.attachmentId ↔ view.Attached record := by
  constructor
  · intro listed
    obtain ⟨recipient, there, id⟩ := List.mem_map.mp listed
    rw [JobView.targets] at there
    split at there
    · cases there
    · have observes := ForegroundState.mem_recipients.mp there
      obtain ⟨other, known, client, same⟩ := leased.recorded _ _ observes
      have equal : other = record := leased.eq_of_id known member (same.trans id)
      rw [JobView.Attached, ← equal, client, same]
      exact observes
  · intro attached
    refine List.mem_map.mpr ⟨⟨record.clientId, record.info.attachmentId⟩, ?_, rfl⟩
    rw [JobView.targets, if_neg]
    · exact ForegroundState.mem_recipients.mpr attached
    · intro isClosed
      rw [JobView.Attached, leased.closed isClosed] at attached
      cases attached

theorem Streamed.chunk (streamed : Streamed view) (leased : Leased view) (data : List UInt8)
    (idle : view.task.outgoing = []) :
    Streamed
      { view with
        task :=
          { view.task with
            ring := view.task.ring.push data
            recorded := view.task.recorded ++ data
            outgoing := (if view.task.foreground.closed then [] else view.task.foreground.recipients).map
              fun recipient => ⟨recipient.clientId, .fgOutput recipient.attachmentId data⟩ } } := by
  have history : ∀ record ∈ view.attached,
      outputsOf (view.sent ++ view.targets.map fun recipient =>
        ⟨recipient.clientId, .fgOutput recipient.attachmentId data⟩) record.info.attachmentId =
      outputsOf view.history record.info.attachmentId ++
        if record.info.attachmentId ∈ view.targets.map ForegroundRecipient.attachmentId then data else [] := by
    intro record member
    rw [outputsOf_append, outputsOf_chunk data _ leased.nodup_targets, JobView.history, idle, List.append_nil]
  refine ⟨streamed.ring.push data, ?capacity, ?snapshot, ?live, ?output⟩
  case capacity => exact (RingBuffer.capacity_push _ _).trans streamed.capacity
  case snapshot =>
    intro record member
    obtain ⟨retained, position, slice⟩ := streamed.snapshot record member
    dsimp only
    refine ⟨retained, by rw [List.length_append]; omega, ?_⟩
    rw [List.take_append_of_le_length position, slice]
  case live =>
    intro record member attached
    have position := (streamed.snapshot record member).2.1
    have now : view.Attached record := attached
    refine (history record member).trans ?_
    rw [if_pos ((leased.mem_targets member).mpr now), streamed.live record member now,
      ← List.drop_append_of_le_length position]
  case output =>
    intro record member
    have position := (streamed.snapshot record member).2.1
    have kept := streamed.output record member
    change outputsOf (view.sent ++ view.targets.map fun recipient =>
      ⟨recipient.clientId, .fgOutput recipient.attachmentId data⟩) record.info.attachmentId <+:
        (view.task.recorded ++ data).drop record.position
    rw [history record member, List.drop_append_of_le_length position]
    split
    · rename_i listed
      rw [streamed.live record member ((leased.mem_targets member).mp listed)]
    · rw [List.append_nil]
      exact kept.trans (List.prefix_append _ _)

theorem Streamed.move (streamed : Streamed view) (leased : Leased view) (move : JobMove view next) :
    Streamed next := by
  cases move with
  | attach done id snapshot quiet => exact streamed.attach leased done id snapshot quiet
  | control controller observes quiet =>
    refine streamed.keep rfl rfl (fun record member here => here) fun record member => ?_
    have positive := (leased.allotted record member).1
    exact outputsOf_told _ _ fun event told => output_quiet (quiet event told) positive
  | detach reason done quiet =>
    obtain ⟨-, rfl⟩ := ForegroundState.detach_some done
    refine streamed.keep rfl rfl (fun record member here => ?_) fun record member => ?_
    · dsimp only [JobView.Attached] at here
      rw [Table.get_erase] at here
      split at here
      · cases here
      · exact here
    · have positive := (leased.allotted record member).1
      refine outputsOf_told _ _ fun event told => ?_
      rcases List.mem_cons.mp told with rfl | later
      · rfl
      · exact output_quiet (quiet event later) positive
  | chunk data idle => exact streamed.chunk leased data idle
  | emit first =>
    refine streamed.keep rfl rfl (fun record member here => here) fun record member => ?_
    rw [JobView.history, first, List.append_assoc]
    rfl
  | close reason idle isOpen =>
    refine streamed.keep rfl rfl (fun record member here => by cases here) fun record member => ?_
    have none : outputsOf (view.task.foreground.recipients.map fun recipient =>
        ⟨recipient.clientId, .fgExited recipient.attachmentId reason⟩) record.info.attachmentId = [] := by
      refine outputsOf_eq_nil fun event told => ?_
      obtain ⟨recipient, -, rfl⟩ := List.mem_map.mp told
      rfl
    rw [JobView.history, idle, outputsOf_append, none, List.append_nil, List.append_nil]

theorem Streamed.moves (streamed : Streamed view) (leased : Leased view) (moves : JobMoves view next) :
    Streamed next := by
  induction moves with
  | refl => exact streamed
  | tail before move ih => exact ih.move (leased.moves before) move

end Moves

namespace ProcessManager

variable {manager : ProcessManager}

theorem Reachable.streamed (run : Reachable (fun _ _ => True) manager) (jobId : JobId) :
    Streamed (manager.view jobId) := by
  induction run with
  | start => exact streamed_fresh
  | step before step enabled _ ih => exact ih.moves (before.leased jobId) (step_moves enabled jobId)

/-- Snapshot and live output of an attachment are one piece of the stream, from the oldest byte that the
ring buffer held at the attach. -/
theorem snapshot_and_output (run : Reachable (fun _ _ => True) manager) (jobId : JobId)
    {record : AttachRecord} (attached : record ∈ (manager.view jobId).attached) :
    record.info.snapshot.length = record.retained ∧
      record.info.snapshot ++ outputsOf (manager.view jobId).sent record.info.attachmentId <+:
        (manager.task jobId).recorded.drop (record.position - record.retained) := by
  have streamed := run.streamed jobId
  obtain ⟨retained, position, slice⟩ := streamed.snapshot record attached
  have output := streamed.output record attached
  rw [JobView.history, outputsOf_append] at output
  have sent := (List.prefix_append _ _).trans output
  change record.position ≤ (manager.task jobId).recorded.length at position
  refine ⟨?_, ?_⟩
  · rw [slice, List.length_drop, List.length_take]
    change min record.position (manager.task jobId).recorded.length - _ = _
    omega
  · have parts : (manager.task jobId).recorded.drop (record.position - record.retained) =
        record.info.snapshot ++ (manager.task jobId).recorded.drop record.position := by
      have inside : record.position - record.retained ≤
          ((manager.task jobId).recorded.take record.position).length := by
        rw [List.length_take]
        omega
      rw [slice]
      change _ = ((manager.task jobId).recorded.take _).drop _ ++ _
      rw [← List.drop_append_of_le_length inside, List.take_append_drop]
    rw [parts]
    exact (List.prefix_append_right_inj _).mpr sent

/-- A terminal job with one chunk of output before an attach and one behind it. -/
def twoChunks : ProcessManager :=
  ((((initial.step (.spawn ⟨1, .running, some .pty, true⟩)).step (.chunk 1 [104])).step
    (.attach 7 1 .observer)).step (.chunk 1 [105])).step (.emit 1)

/-- Its one attachment. -/
def twoChunksRecord : AttachRecord := ⟨7, ⟨"J1", 1, .observer, true, [104], false⟩, 1, 1⟩

theorem snapshot_and_output_twoChunks :
    twoChunksRecord ∈ (twoChunks.view 1).attached ∧
      twoChunksRecord.info.snapshot ++ outputsOf (twoChunks.view 1).sent 1 <+:
        (twoChunks.task 1).recorded.drop 0 := by
  have spawned : Reachable (fun _ _ => True) (initial.step (.spawn ⟨1, .running, some .pty, true⟩)) :=
    .step .start (.spawn ⟨1, .running, some .pty, true⟩) trivial trivial
  have run : Reachable (fun _ _ => True) twoChunks :=
    .step (.step (.step (.step spawned (.chunk 1 [104]) ⟨by decide +kernel, by decide +kernel⟩ trivial)
      (.attach 7 1 .observer) trivial trivial) (.chunk 1 [105]) ⟨by decide +kernel, by decide +kernel⟩ trivial)
      (.emit 1) trivial trivial
  have attached : twoChunksRecord ∈ (twoChunks.view 1).attached := by decide +kernel
  exact ⟨attached, (snapshot_and_output run 1 attached).2⟩

end ProcessManager

end CueShell
