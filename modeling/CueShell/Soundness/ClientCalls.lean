import CueShell.Model.MultiplexedClient

/-! # Calls of the multiplexed client end

A waiter is in the map exactly while its call is open, under the request id of the call. So a response
reaches the call it belongs to, and the drain at the end reaches every call that is open then. A call
that stores its waiter after the drain is reached by nothing.
-/

namespace CueShell

variable {Payload : Type}

/-- The call has a waiter that nothing has been sent to. -/
def ClientCall.Open (entry : ClientCall Payload) : Prop :=
  (entry.stage = .sending ∨ entry.stage = .waiting) ∧ entry.slot = .empty

namespace MultiplexedClient

variable {client : MultiplexedClient Payload} {call : ℕ} {entry : ClientCall Payload}

structure Routed (client : MultiplexedClient Payload) : Prop where
  stored : ∀ id call, client.pending.get id = some call →
    ∃ entry, client.calls.get call = some entry ∧ entry.requestId = id ∧ entry.Open
  reached : ∀ call entry, client.calls.get call = some entry → entry.Open →
    client.pending.get entry.requestId = some call
  delivered : ∀ call entry id payload, client.calls.get call = some entry →
    entry.slot = .delivered id payload → id = entry.requestId
  fresh : ∀ call entry, client.calls.get call = some entry → entry.stage = .allocated →
    entry.slot = .empty

theorem Routed.start (nextId : UInt32) : (start nextId : MultiplexedClient Payload).Routed where
  stored _ _ found := by cases found
  reached _ _ found := by cases found
  delivered _ _ _ _ found := by cases found
  fresh _ _ found := by cases found

/-- Take the waiter under an id out of the map and use it. -/
def taken (client : MultiplexedClient Payload) (id : UInt32) (slot : ResponseSlot Payload) :
    MultiplexedClient Payload :=
  { client with calls := client.settle id slot, pending := client.pending.erase id }

/-- The entry of a call after a waiter was used. -/
theorem get_settle (id : UInt32) (slot : ResponseSlot Payload) (call : ℕ) :
    (client.settle id slot).get call = if client.pending.get id = some call
      then (client.calls.get call).map fun entry => { entry with slot := slot }
      else client.calls.get call := by
  unfold settle
  cases client.pending.get id with
  | none => simp
  | some owner =>
    rw [Table.get_modify]
    by_cases same : call = owner
    · simp [same]
    · simp [same, Ne.symm same]

theorem Routed.taken (routed : client.Routed) {id : UInt32} {slot : ResponseSlot Payload}
    (used : slot ≠ .empty) (own : ∀ other payload, slot = .delivered other payload → other = id) :
    (client.taken id slot).Routed where
  stored other call found := by
    dsimp only [MultiplexedClient.taken] at found ⊢
    rw [Table.get_erase] at found
    split at found
    · cases found
    · rename_i apart
      obtain ⟨entry, known, requestId, isOpen⟩ := routed.stored other call found
      refine ⟨entry, ?_, requestId, isOpen⟩
      rw [get_settle, if_neg, known]
      intro owner
      obtain ⟨same, again, sameId, -⟩ := routed.stored id call owner
      cases known.symm.trans again
      exact apart (requestId.symm.trans sameId)
  reached call entry found isOpen := by
    dsimp only [MultiplexedClient.taken] at found ⊢
    rw [get_settle] at found
    split at found
    · obtain ⟨old, -, rfl⟩ := Option.map_eq_some_iff.mp found
      exact absurd isOpen.2 used
    · rename_i foreign
      have waits := routed.reached call entry found isOpen
      rw [Table.get_erase, if_neg]
      · exact waits
      · rintro same
        exact foreign (same ▸ waits)
  delivered call entry other payload found stored := by
    dsimp only [MultiplexedClient.taken] at found
    rw [get_settle] at found
    split at found
    · rename_i owner
      obtain ⟨known, here, requestId, -⟩ := routed.stored id call owner
      rw [here] at found
      cases found
      rw [own other payload stored]
      exact requestId.symm
    · exact routed.delivered call entry other payload found stored
  fresh call entry found allocated := by
    dsimp only [MultiplexedClient.taken] at found
    rw [get_settle] at found
    split at found
    · rename_i owner
      obtain ⟨known, here, -, stage, -⟩ := routed.stored id call owner
      rw [here] at found
      cases found
      rcases stage with sending | waiting
      · exact absurd (sending.symm.trans allocated) (by simp)
      · exact absurd (waiting.symm.trans allocated) (by simp)
    · exact routed.fresh call entry found allocated

/-- A call goes on without its waiter being touched. -/
theorem Routed.setStage (routed : client.Routed) (known : client.calls.get call = some entry)
    {stage : CallStage Payload} (same : ({ entry with stage := stage } : ClientCall Payload).Open ↔ entry.Open)
    (started : stage ≠ .allocated) : ({ client with calls := client.setStage call stage }).Routed where
  stored id other found := by
    obtain ⟨old, there, requestId, isOpen⟩ := routed.stored id other found
    dsimp only [MultiplexedClient.setStage]
    rw [Table.get_modify]
    split
    · rename_i here
      subst here
      cases known.symm.trans there
      exact ⟨{ entry with stage := stage }, by rw [known]; rfl, requestId, same.mpr isOpen⟩
    · exact ⟨old, there, requestId, isOpen⟩
  reached other later found isOpen := by
    dsimp only [MultiplexedClient.setStage] at found ⊢
    rw [Table.get_modify] at found
    split at found
    · rename_i here
      subst here
      rw [known] at found
      cases found
      exact routed.reached other entry known (same.mp isOpen)
    · exact routed.reached other later found isOpen
  delivered other later id payload found stored := by
    dsimp only [MultiplexedClient.setStage] at found
    rw [Table.get_modify] at found
    split at found
    · rw [known] at found
      cases found
      exact routed.delivered call entry id payload known stored
    · exact routed.delivered other later id payload found stored
  fresh other later found allocated := by
    dsimp only [MultiplexedClient.setStage] at found
    rw [Table.get_modify] at found
    split at found
    · rw [known] at found
      cases found
      exact absurd allocated started
    · exact routed.fresh other later found allocated

/-- A call stores its waiter under an id that is free. -/
theorem Routed.enter (routed : client.Routed) {requestId : UInt32}
    (known : client.calls.get call = some ⟨requestId, .allocated, .empty⟩)
    (free : client.pending.get requestId = none) :
    ({ client with
      calls := client.setStage call .sending
      pending := client.pending.insert requestId call }).Routed where
  stored id other found := by
    dsimp only [MultiplexedClient.setStage] at found ⊢
    rw [Table.get_insert] at found
    split at found
    · rename_i same
      cases found
      refine ⟨⟨requestId, .sending, .empty⟩, ?_, same.symm, .inl rfl, rfl⟩
      rw [Table.get_modify, if_pos rfl, known]
      rfl
    · obtain ⟨old, there, same, stage, slot⟩ := routed.stored id other found
      refine ⟨old, ?_, same, stage, slot⟩
      rw [Table.get_modify, if_neg, there]
      rintro rfl
      cases known.symm.trans there
      rcases stage with sending | waiting
      · cases sending
      · cases waiting
  reached other later found isOpen := by
    dsimp only [MultiplexedClient.setStage] at found ⊢
    rw [Table.get_modify] at found
    rw [Table.get_insert]
    split at found
    · rename_i here
      rw [known] at found
      cases found
      rw [if_pos rfl, here]
    · have waits := routed.reached other later found isOpen
      rw [if_neg, waits]
      rintro same
      rw [same, free] at waits
      cases waits
  delivered other later id payload found stored := by
    dsimp only [MultiplexedClient.setStage] at found
    rw [Table.get_modify] at found
    split at found
    · rw [known] at found
      cases found
      cases stored
    · exact routed.delivered other later id payload found stored
  fresh other later found allocated := by
    dsimp only [MultiplexedClient.setStage] at found
    rw [Table.get_modify] at found
    split at found
    · rw [known] at found
      cases found
      cases allocated
    · exact routed.fresh other later found allocated

/-- A call that is no waiter's is noted. -/
theorem Routed.begin (routed : client.Routed) (new : client.calls.get call = none)
    (noWaiter : entry.stage ≠ .sending ∧ entry.stage ≠ .waiting) (slot : entry.slot = .empty) :
    ({ client with calls := client.calls.insert call entry }).Routed where
  stored id other found := by
    obtain ⟨old, there, same, isOpen⟩ := routed.stored id other found
    refine ⟨old, ?_, same, isOpen⟩
    rw [Table.get_insert, if_neg, there]
    rintro rfl
    cases new.symm.trans there
  reached other later found isOpen := by
    dsimp only at found
    rw [Table.get_insert] at found
    split at found
    · cases found
      rcases isOpen.1 with sending | waiting
      · exact absurd sending noWaiter.1
      · exact absurd waiting noWaiter.2
    · exact routed.reached other later found isOpen
  delivered other later id payload found stored := by
    dsimp only at found
    rw [Table.get_insert] at found
    split at found
    · cases found
      cases slot.symm.trans stored
    · exact routed.delivered other later id payload found stored
  fresh other later found allocated := by
    dsimp only at found
    rw [Table.get_insert] at found
    split at found
    · cases found
      exact slot
    · exact routed.fresh other later found allocated

/-- The drain reaches all open calls. -/
theorem Routed.drained (routed : client.Routed) (reason : String) :
    ({ client with calls := client.drained reason, pending := .empty, reader := .drained }).Routed where
  stored id other found := by cases found
  reached other later found isOpen := by
    dsimp only [MultiplexedClient.drained] at found
    rw [Table.get_mapValues] at found
    obtain ⟨old, there, same⟩ := Option.map_eq_some_iff.mp found
    split at same
    · subst same
      cases isOpen.2
    · rename_i foreign
      subst same
      exact absurd (routed.reached other old there isOpen) foreign
  delivered other later id payload found stored := by
    dsimp only [MultiplexedClient.drained] at found
    rw [Table.get_mapValues] at found
    obtain ⟨old, there, same⟩ := Option.map_eq_some_iff.mp found
    split at same
    · subst same
      cases stored
    · subst same
      exact routed.delivered other old id payload there stored
  fresh other later found allocated := by
    dsimp only [MultiplexedClient.drained] at found
    rw [Table.get_mapValues] at found
    obtain ⟨old, there, same⟩ := Option.map_eq_some_iff.mp found
    split at same
    · rename_i owner
      obtain ⟨again, here, -, stage, -⟩ := routed.stored _ _ owner
      cases there.symm.trans here
      subst same
      rcases stage with sending | waiting
      · exact absurd (sending.symm.trans allocated) (by simp)
      · exact absurd (waiting.symm.trans allocated) (by simp)
    · subst same
      exact routed.fresh other old there allocated

/-- The entry of a call that has no waiter is left alone when a waiter is used. -/
theorem Routed.settle_foreign (routed : client.Routed) (known : client.calls.get call = some entry)
    (idle : ¬ entry.Open) (id : UInt32) (slot : ResponseSlot Payload) :
    (client.settle id slot).get call = some entry := by
  rw [get_settle, if_neg, known]
  intro owner
  obtain ⟨again, here, -, isOpen⟩ := routed.stored id call owner
  cases known.symm.trans here
  exact idle isOpen

theorem Routed.register (routed : client.Routed) (call : ℕ) :
    (client.step (.register call)).Routed := by
  unfold step
  dsimp only
  split
  · rename_i requestId slot known
    obtain rfl : slot = .empty := routed.fresh call _ known rfl
    have free : (client.taken requestId .closed).Routed := routed.taken (by simp) (by simp)
    have there : (client.taken requestId .closed).calls.get call = some ⟨requestId, .allocated, .empty⟩ :=
      routed.settle_foreign known (by simp [ClientCall.Open]) requestId .closed
    have entered := free.enter there (by simp [MultiplexedClient.taken, Table.get_erase])
    have same : (client.taken requestId .closed).pending.insert requestId call =
        client.pending.insert requestId call := Table.insert_erase ..
    rw [same] at entered
    exact entered
  · exact routed

theorem Routed.enqueue (routed : client.Routed) (call : ℕ) :
    (client.step (.enqueue call)).Routed := by
  unfold step
  dsimp only
  split
  · rename_i requestId slot known
    split
    · -- The writer is gone: the call takes its waiter back and returns.
      have free : (client.taken requestId .closed).Routed := routed.taken (by simp) (by simp)
      obtain ⟨later, there, idle⟩ : ∃ later, (client.taken requestId .closed).calls.get call = some later ∧
          ¬ later.Open := by
        dsimp only [MultiplexedClient.taken]
        rw [get_settle, known]
        split
        · exact ⟨_, rfl, by simp [ClientCall.Open]⟩
        · rename_i foreign
          exact ⟨_, rfl, fun isOpen => foreign (routed.reached call _ known isOpen)⟩
      refine free.setStage there (iff_of_false ?_ idle) (by simp)
      simp [ClientCall.Open]
    · split
      · have same : (⟨requestId, .waiting, slot⟩ : ClientCall Payload).Open ↔
            (⟨requestId, .sending, slot⟩ : ClientCall Payload).Open := by simp [ClientCall.Open]
        have sent := routed.setStage known same (by simp)
        exact ⟨sent.stored, sent.reached, sent.delivered, sent.fresh⟩
      · exact routed
  · exact routed

theorem Routed.receive (routed : client.Routed) (call : ℕ) :
    (client.step (.receive call)).Routed := by
  unfold step
  dsimp only
  split
  · rename_i requestId slot known
    split
    · rename_i outcome ready
      refine routed.setStage known (iff_of_false (by simp [ClientCall.Open]) ?_) (by simp)
      rintro ⟨-, rfl⟩
      cases ready
    · exact routed
  · exact routed

theorem Routed.step (routed : client.Routed) (step : ClientStep Payload) : (client.step step).Routed := by
  cases step with
  | begin call supported =>
    unfold MultiplexedClient.step
    dsimp only
    split
    · exact routed
    · rename_i known
      have new : client.calls.get call = none := by simpa using known
      split
      · have begun := @Routed.begin _ _ call ⟨client.nextId, .allocated, .empty⟩ routed new (by simp) rfl
        exact ⟨begun.stored, begun.reached, begun.delivered, begun.fresh⟩
      · exact routed.begin new (by simp) rfl
  | register call => exact routed.register call
  | enqueue call => exact routed.enqueue call
  | receive call => exact routed.receive call
  | response id payload =>
    unfold MultiplexedClient.step
    dsimp only
    split
    · refine routed.taken (by simp) fun other _ same => ?_
      cases same
      rfl
    · exact routed
  | otherMessage => exact routed
  | readError error =>
    unfold MultiplexedClient.step
    dsimp only
    split
    · exact ⟨routed.stored, routed.reached, routed.delivered, routed.fresh⟩
    · exact routed
  | failPending =>
    unfold MultiplexedClient.step
    dsimp only
    split
    · exact routed.drained _
    · exact routed
  | write =>
    unfold MultiplexedClient.step
    dsimp only
    split
    · exact ⟨routed.stored, routed.reached, routed.delivered, routed.fresh⟩
    · exact routed
  | writeError => exact ⟨routed.stored, routed.reached, routed.delivered, routed.fresh⟩

/-- After the drain the map is empty. -/
def Empty (client : MultiplexedClient Payload) : Prop :=
  client.reader = .drained → ∀ id, client.pending.get id = none

/-- No waiter is stored after the drain. -/
def Timely : MultiplexedClient Payload → List (ClientStep Payload) → Prop
  | _, [] => True
  | client, step :: rest =>
      (∀ call, step = .register call → client.reader ≠ .drained) ∧ Timely (client.step step) rest

theorem Empty.step (empty : client.Empty) {step : ClientStep Payload}
    (timely : ∀ call, step = .register call → client.reader ≠ .drained) :
    (client.step step).Empty := by
  cases step with
  | begin call supported =>
    unfold MultiplexedClient.step
    dsimp only
    split
    · exact empty
    · split <;> exact empty
  | register call =>
    unfold MultiplexedClient.step
    dsimp only
    split
    · exact fun drained => absurd drained (timely call rfl)
    · exact empty
  | enqueue call =>
    unfold MultiplexedClient.step
    dsimp only
    split
    · split
      · intro drained id
        dsimp only
        rw [Table.get_erase]
        split
        · rfl
        · exact empty drained id
      · split <;> exact empty
    · exact empty
  | receive call =>
    unfold MultiplexedClient.step
    dsimp only
    split
    · split <;> exact empty
    · exact empty
  | response id payload =>
    unfold MultiplexedClient.step
    dsimp only
    split
    · rename_i reading
      exact fun drained => absurd (reading.symm.trans drained) (by simp)
    · exact empty
  | otherMessage => exact empty
  | readError error =>
    unfold MultiplexedClient.step
    dsimp only
    split
    · exact fun drained => by cases drained
    · exact empty
  | failPending =>
    unfold MultiplexedClient.step
    dsimp only
    split
    · exact fun _ _ => rfl
    · exact empty
  | write =>
    unfold MultiplexedClient.step
    dsimp only
    split <;> exact empty
  | writeError => exact empty

/-- Responses reach the calls they belong to, and after the drain no call waits in the map: whatever a
call waits for is there. -/
structure Settled (client : MultiplexedClient Payload) : Prop where
  routed : ∀ call entry id payload, client.calls.get call = some entry →
    entry.slot = .delivered id payload → id = entry.requestId
  stranded : client.reader = .drained → ∀ id, client.pending.get id = none
  ends : client.reader = .drained → ∀ call entry, client.calls.get call = some entry →
    entry.stage = .sending ∨ entry.stage = .waiting → (result entry.requestId entry.slot).isSome

theorem run_timely {steps : List (ClientStep Payload)} (routed : client.Routed) (empty : client.Empty)
    (timely : client.Timely steps) : (client.run steps).Routed ∧ (client.run steps).Empty := by
  induction steps generalizing client with
  | nil => exact ⟨routed, empty⟩
  | cons step rest ih => exact ih (routed.step step) (empty.step timely.1) timely.2

theorem Routed.settled (routed : client.Routed) (empty : client.Empty) : client.Settled where
  routed := routed.delivered
  stranded := empty
  ends drained call entry known stage := by
    have slot : entry.slot ≠ .empty := by
      intro slot
      have waits := routed.reached call entry known ⟨stage, slot⟩
      rw [empty drained] at waits
      cases waits
    cases found : entry.slot with
    | empty => exact absurd found slot
    | delivered id payload => rfl
    | failed message => rfl
    | closed => rfl

/-- In every run in which no call stores its waiter after the drain, no call is stranded or gets the
response of another. -/
theorem calls_settled (nextId : UInt32) (steps : List (ClientStep Payload))
    (timely : (start nextId : MultiplexedClient Payload).Timely steps) :
    ((start nextId).run steps).Settled := by
  obtain ⟨routed, empty⟩ := run_timely (Routed.start nextId) (fun drained => by cases drained) timely
  exact routed.settled empty

/-- A call that is open when the connection breaks gets an error. -/
theorem calls_settled_on_disconnect :
    (start 1 : MultiplexedClient String).Timely
        [.begin 0 true, .register 0, .enqueue 0, .write, .readError "eof", .failPending] ∧
      ((start 1 : MultiplexedClient String).run
        [.begin 0 true, .register 0, .enqueue 0, .write, .readError "eof", .failPending]).Settled := by
  have timely : (start 1 : MultiplexedClient String).Timely
      [.begin 0 true, .register 0, .enqueue 0, .write, .readError "eof", .failPending] := by
    refine ⟨?_, ?_, ?_, ?_, ?_, ?_, trivial⟩
    · simp
    · exact fun _ _ => ReaderStage.noConfusion
    all_goals simp
  exact ⟨timely, calls_settled 1 _ timely⟩

/-- A call that stores its waiter after the drain is queued, and its waiter stays. -/
theorem call_stranded_after_drain :
    ¬ ((start 1 : MultiplexedClient String).run
      [.readError "eof", .failPending, .begin 0 true, .register 0, .enqueue 0]).Settled := by
  intro settled
  have gone := settled.stranded rfl 1
  revert gone
  decide

end MultiplexedClient

end CueShell
