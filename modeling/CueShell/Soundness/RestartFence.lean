import CueShell.Model.RestartRun

/-! # A stop wins over a restart

A call on the file leaves it alone or does one of a few things: it arms a restart over what it
expected, takes its own restart back, completes an armed restart, cancels, or clears what is
cancelled. So a cancelled record stays cancelled until it is cleared, and a ticket that was completed
stands nowhere from where it could be armed again.
-/

namespace CueShell

section Calls

variable (io : RecordIo) (file : Option RestartRecord)

/-- A call answers an error, or what it has decided. -/
@[elab_as_elim]
theorem withRecord_elim {io : RecordIo} {file : Option RestartRecord} {α : Type} {post : Except String α × Option RestartRecord → Prop}
    {decide : Option RestartRecord → Except String (α × Option (Option RestartRecord))}
    (fails : ∀ error, post (.error error, file))
    (keeps : ∀ answer, decide file = .ok (answer, none) → post (.ok answer, file))
    (writes : ∀ answer next, decide file = .ok (answer, some next) → post (.ok answer, next)) :
    post (withRecord io decide file) := by
  unfold withRecord
  cases io.lock.or io.read with
  | some error => exact fails error
  | none =>
    cases decided : decide file with
    | error error => exact fails error
    | ok result =>
      obtain ⟨answer, next⟩ := result
      cases next with
      | none => exact keeps answer decided
      | some next =>
        cases io.write with
        | some error => exact fails error
        | none => exact writes answer next decided

/-- A restart is armed over the expected record, which is not cancelled, or nothing happens. -/
theorem armRestartRecord_spec (expected : Option RestartRecord) (armed : RestartRecord) :
    (armRestartRecord io expected armed file = (.ok .armed, some armed) ∧ file = expected ∧
      file.any RestartRecord.isCancelled = false) ∨
    ((armRestartRecord io expected armed file).2 = file ∧
      (armRestartRecord io expected armed file).1 ≠ .ok .armed) := by
  unfold armRestartRecord
  refine withRecord_elim ?_ ?_ ?_
  · exact fun error => .inr ⟨rfl, nofun⟩
  · intro answer decided
    split at decided
    · cases decided
      exact .inr ⟨rfl, nofun⟩
    · split at decided <;> cases decided
  · intro answer next decided
    split at decided
    · cases decided
    · rename_i live
      split at decided
      · rename_i same
        cases decided
        exact .inl ⟨rfl, same, by simpa using live⟩
      · cases decided

/-- A rollback changes nothing but the record that it is given. -/
theorem rollbackArmedRestart_spec (armed : RestartRecord) (previous : Option RestartRecord) :
    ((rollbackArmedRestart io armed previous file).2 = previous ∧ file = some armed ∧
      armed.isCancelled = false) ∨ (rollbackArmedRestart io armed previous file).2 = file := by
  unfold rollbackArmedRestart
  refine withRecord_elim ?_ ?_ ?_
  · exact fun error => .inr rfl
  · exact fun answer decided => .inr rfl
  · intro answer next decided
    split at decided
    · cases decided
    · rename_i live
      split at decided
      · cases decided
      · rename_i same
        cases decided
        obtain rfl : file = some armed := by simpa using same
        exact .inl ⟨rfl, rfl, by simpa using live⟩

/-- A completion is answered for the ticket in the file if it is armed, or nothing happens. -/
theorem completeMatchingArmedRestart_spec (expected : RestartRecord) :
    (∃ record, file = some record ∧ record.sameTicket expected ∧ record.phase = .armed ∧
      completeMatchingArmedRestart io expected file =
        (.ok .completed, some { record with phase := .completed })) ∨
    ((completeMatchingArmedRestart io expected file).2 = file ∧
      (completeMatchingArmedRestart io expected file).1 ≠ .ok .completed) := by
  unfold completeMatchingArmedRestart
  refine withRecord_elim ?_ ?_ ?_
  · exact fun error => .inr ⟨rfl, nofun⟩
  · intro answer decided
    refine .inr ⟨rfl, ?_⟩
    rintro ⟨⟩
    cases file with
    | none => cases decided
    | some record =>
      dsimp only at decided
      split at decided
      · cases decided
      · split at decided <;> cases decided
  · intro answer next decided
    cases file with
    | none => cases decided
    | some record =>
      dsimp only at decided
      split at decided
      · cases decided
      · rename_i same
        split at decided
        · rename_i phase
          cases decided
          exact .inl ⟨record, rfl, by simpa using same, phase, rfl⟩
        · cases decided
        · cases decided

/-- The functions that cancel leave a cancelled record, or nothing happens. -/
theorem cancelRestartIntentForStop_spec (uuid : String) :
    (∃ record : RestartRecord, (cancelRestartIntentForStop io uuid file).2 = some record.cancel) ∨
      (cancelRestartIntentForStop io uuid file).2 = file := by
  unfold cancelRestartIntentForStop
  refine withRecord_elim ?_ ?_ ?_
  · exact fun error => .inr rfl
  · exact fun answer decided => .inr rfl
  · intro answer next decided
    cases decided
    exact .inl ⟨file.getD (stopRecord uuid), rfl⟩

theorem writeRestartRecord_spec (intent : RestartRecord) :
    (writeRestartRecord io intent file).2 = some intent ∨
      (writeRestartRecord io intent file).2 = file := by
  unfold writeRestartRecord
  cases io.lock.or io.write with
  | some error => exact .inr rfl
  | none => exact .inl rfl

theorem cancelMatchingArmedRestart_spec (armed : RestartRecord) :
    (∃ record : RestartRecord, (cancelMatchingArmedRestart io armed file).2 = some record.cancel) ∨
      (cancelMatchingArmedRestart io armed file).2 = file := by
  unfold cancelMatchingArmedRestart
  refine withRecord_elim ?_ ?_ ?_
  · exact fun error => .inr rfl
  · exact fun answer decided => .inr rfl
  · intro answer next decided
    cases file with
    | none => cases decided
    | some record =>
      dsimp only at decided
      split at decided
      · cases decided
      · cases decided
        exact .inl ⟨record, rfl⟩

theorem clearCancelledRestartRecord_spec :
    (clearCancelledRestartRecord io file).2 = none ∨ (clearCancelledRestartRecord io file).2 = file := by
  unfold clearCancelledRestartRecord
  refine withRecord_elim ?_ ?_ ?_
  · exact fun error => .inr rfl
  · exact fun answer decided => .inr rfl
  · intro answer next decided
    cases file with
    | none => cases decided
    | some record =>
      dsimp only at decided
      split at decided
      · cases decided
      · cases decided
        exact .inl rfl

end Calls

/-- What a call can do to the file. -/
inductive RestartCall.Effect (file : Option RestartRecord) : RestartCall → Option RestartRecord → Prop
  | keep (call : RestartCall) : Effect file call file
  | arm (expected : Option RestartRecord) (armed : RestartRecord) (same : file = expected)
      (live : file.any RestartRecord.isCancelled = false) :
      Effect file (.arm expected armed) (some armed)
  | rollback (armed : RestartRecord) (previous : Option RestartRecord) (own : file = some armed)
      (live : armed.isCancelled = false) : Effect file (.rollback armed previous) previous
  | complete (expected record : RestartRecord) (found : file = some record)
      (phase : record.phase = .armed) :
      Effect file (.complete expected) (some { record with phase := .completed })
  | cancel (call : RestartCall) (record : RestartRecord) : Effect file call (some record.cancel)
  | clear : Effect file .clear none

theorem RestartCall.file_effect (io : RecordIo) (file : Option RestartRecord) (call : RestartCall) :
    call.Effect file (call.file io file) := by
  cases call with
  | arm expected armed =>
    rcases armRestartRecord_spec io file expected armed with ⟨done, same, live⟩ | ⟨kept, -⟩
    · simp only [RestartCall.file, done]
      exact .arm expected armed same live
    · simp only [RestartCall.file, kept]
      exact .keep _
  | rollback armed previous =>
    rcases rollbackArmedRestart_spec io file armed previous with ⟨done, own, live⟩ | kept
    · simp only [RestartCall.file, done]
      exact .rollback armed previous own live
    · simp only [RestartCall.file, kept]
      exact .keep _
  | complete expected =>
    rcases completeMatchingArmedRestart_spec io file expected with ⟨record, found, -, phase, done⟩ | ⟨kept, -⟩
    · simp only [RestartCall.file, done]
      exact .complete expected record found phase
    · simp only [RestartCall.file, kept]
      exact .keep _
  | cancelForStop uuid =>
    rcases cancelRestartIntentForStop_spec io file uuid with ⟨record, done⟩ | kept
    · simp only [RestartCall.file, done]
      exact .cancel _ record
    · simp only [RestartCall.file, kept]
      exact .keep _
  | cancelFence intent uuid =>
    cases intent with
    | some intent =>
      rcases writeRestartRecord_spec io file intent.cancel with done | kept
      · simp only [RestartCall.file, done]
        exact .cancel _ intent
      · simp only [RestartCall.file, kept]
        exact .keep _
    | none =>
      rcases cancelRestartIntentForStop_spec io file uuid with ⟨record, done⟩ | kept
      · simp only [RestartCall.file, done]
        exact .cancel _ record
      · simp only [RestartCall.file, kept]
        exact .keep _
  | cancelMatching armed =>
    rcases cancelMatchingArmedRestart_spec io file armed with ⟨record, done⟩ | kept
    · simp only [RestartCall.file, done]
      exact .cancel _ record
    · simp only [RestartCall.file, kept]
      exact .keep _
  | clear =>
    rcases clearCancelledRestartRecord_spec io file with done | kept
    · simp only [RestartCall.file, done]
      exact .clear
    · simp only [RestartCall.file, kept]
      exact .keep _

/-- A cancelled record stays cancelled, unless it is cleared. -/
theorem RestartCall.stays_cancelled {io : RecordIo} {file : Option RestartRecord} {call : RestartCall}
    (cancelled : file.any RestartRecord.isCancelled) (kept : call ≠ .clear) :
    (call.file io file).any RestartRecord.isCancelled := by
  generalize reached : call.file io file = after
  have effect := reached ▸ call.file_effect io file
  cases effect with
  | keep => exact cancelled
  | arm expected armed same live =>
    rw [live] at cancelled
    cases cancelled
  | rollback armed previous own live =>
    rw [own, Option.any_some, live] at cancelled
    cases cancelled
  | complete expected record found phase =>
    simp [found, RestartRecord.isCancelled, phase] at cancelled
  | cancel call record => simp [RestartRecord.cancel, RestartRecord.isCancelled]
  | clear => exact absurd rfl kept

section Tickets

theorem RestartRecord.sameTicket_iff {record expected : RestartRecord} :
    record.sameTicket expected ↔ record.restartId = expected.restartId ∧
      record.daemonInstanceId = expected.daemonInstanceId ∧
      record.targetGeneration = expected.targetGeneration ∧
      record.protocolVersion = expected.protocolVersion := by
  simp [RestartRecord.sameTicket, and_assoc]

/-- The records that rollbacks could bring back. -/
inductive Under (granted : List (Option RestartRecord × RestartRecord)) (top : Option RestartRecord) :
    Option RestartRecord → Prop
  | top : Under granted top top
  | down {expected : Option RestartRecord} {armed : RestartRecord} (above : Under granted top (some armed))
      (armedOver : (expected, armed) ∈ granted) : Under granted top expected

variable {granted : List (Option RestartRecord × RestartRecord)} {top under : Option RestartRecord}

theorem Under.trans {middle : Option RestartRecord} (first : Under granted top middle)
    (rest : Under granted middle under) : Under granted top under := by
  induction rest with
  | top => exact first
  | down _ armedOver ih => exact .down ih armedOver

/-- Nothing is brought back from under a record that nobody armed. -/
theorem Under.eq_top (below : Under granted top under)
    (unarmed : ∀ expected armed, (expected, armed) ∈ granted → top ≠ some armed) : under = top := by
  induction below with
  | top => rfl
  | down _ armedOver ih => exact absurd ih.symm (unarmed _ _ armedOver)

/-- What has been armed and completed so far. -/
structure RestartHistory.Settled (history : RestartHistory) : Prop where
  known : ∀ record, history.file = some record → record.isCancelled = false →
    record.restartId ∈ history.ids
  armed : ∀ expected armed, (expected, armed) ∈ history.granted → armed.phase = .armed ∧
    armed.restartId ∈ history.ids ∧ ∀ record, expected = some record → record.restartId ∈ history.ids
  unique : ∀ first second armed, (first, armed) ∈ history.granted →
    (second, armed) ∈ history.granted → first = second
  named : ∀ ticket ∈ history.completions, ticket.restartId ∈ history.ids
  below : ∀ ticket ∈ history.completions, ∀ record, Under history.granted history.file (some record) →
    record.phase = .armed → ¬ record.sameTicket ticket
  once : history.completions.Pairwise fun later earlier => ¬ later.sameTicket earlier

variable {history : RestartHistory}

/-- Everything that could be brought back has been named. -/
theorem RestartHistory.Settled.under_known (settled : history.Settled) {record : RestartRecord}
    (below : Under history.granted history.file (some record))
    (live : history.file.any RestartRecord.isCancelled = false) : record.restartId ∈ history.ids := by
  generalize reached : some record = found at below
  induction below generalizing record with
  | top => exact settled.known record reached.symm (by rw [← reached] at live; simpa using live)
  | down _ armedOver ih => exact (settled.armed _ _ armedOver).2.2 record reached.symm

theorem RestartHistory.settled_start (file : Option RestartRecord) :
    (RestartHistory.start file).Settled where
  known record found _ := by
    have same : file = some record := found
    simp [RestartHistory.start, same]
  armed _ _ member := by cases member
  unique _ _ _ member := by cases member
  named _ member := by cases member
  below _ member := by cases member
  once := .nil

/-- The file is cancelled, cleared or completed, so nothing under it can be brought back. -/
theorem RestartHistory.Settled.fixed (settled : history.Settled) {after : RestartHistory}
    (granted : after.granted = history.granted) (completions : after.completions = history.completions)
    (ids : history.ids ⊆ after.ids)
    (file : after.file = history.file ∨ ∀ record, after.file = some record →
      record.phase ≠ .armed ∧ (record.isCancelled = false → record.restartId ∈ after.ids)) :
    after.Settled := by
  refine ⟨?_, ?_, ?_, ?_, ?_, completions ▸ settled.once⟩
  · intro record found live
    rcases file with same | changed
    · exact ids (settled.known record (same ▸ found) live)
    · exact (changed record found).2 live
  · intro expected armed member
    obtain ⟨phase, named, under⟩ := settled.armed expected armed (granted ▸ member)
    exact ⟨phase, ids named, fun record found => ids (under record found)⟩
  · rw [granted]
    exact settled.unique
  · intro ticket member
    exact ids (settled.named ticket (completions ▸ member))
  · intro ticket member record under phase
    rw [granted] at under
    rcases file with same | changed
    · exact settled.below ticket (completions ▸ member) record (same ▸ under) phase
    · have reached : some record = after.file := by
        refine under.eq_top fun expected armed armedOver found => ?_
        exact (changed armed found).1 (settled.armed expected armed armedOver).1
      exact absurd phase (changed record reached.symm).1

/-- A new restart is armed over the file. -/
theorem RestartHistory.Settled.arm (settled : history.Settled) {armed : RestartRecord}
    {after : RestartHistory} (live : history.file.any RestartRecord.isCancelled = false)
    (phase : armed.phase = .armed) (fresh : armed.restartId ∉ history.ids)
    (file : after.file = some armed) (granted : after.granted = (history.file, armed) :: history.granted)
    (completions : after.completions = history.completions) (ids : history.ids ⊆ after.ids)
    (named : armed.restartId ∈ after.ids) : after.Settled := by
  have unarmed : ∀ expected, (expected, armed) ∉ history.granted := fun expected member =>
    fresh (settled.armed expected armed member).2.1
  have split : ∀ under, Under after.granted after.file under →
      under = some armed ∨ Under history.granted history.file under := by
    intro under below
    induction below with
    | top => exact .inl file
    | @down expected other _ armedOver ih =>
      rw [granted] at armedOver
      rcases ih with here | below
      · cases here
        rcases List.mem_cons.mp armedOver with same | old
        · cases same
          exact .inr .top
        · exact absurd old (unarmed expected)
      · rcases List.mem_cons.mp armedOver with same | old
        · cases same
          exact absurd (settled.under_known below live) fresh
        · exact .inr (.down below old)
  refine ⟨?_, ?_, ?_, ?_, ?_, completions ▸ settled.once⟩
  · intro record found _
    cases file.symm.trans found
    exact named
  · intro expected other member
    rw [granted] at member
    rcases List.mem_cons.mp member with same | old
    · cases same
      refine ⟨phase, named, fun record found => ids (settled.known record found ?_)⟩
      rw [found] at live
      simpa using live
    · obtain ⟨phase, named, under⟩ := settled.armed expected other old
      exact ⟨phase, ids named, fun record found => ids (under record found)⟩
  · intro first second other one two
    rw [granted] at one two
    rcases List.mem_cons.mp one with same | old
    · cases same
      rcases List.mem_cons.mp two with same | older
      · cases same
        rfl
      · exact absurd older (unarmed second)
    · rcases List.mem_cons.mp two with same | older
      · cases same
        exact absurd old (unarmed first)
      · exact settled.unique first second other old older
  · intro ticket member
    exact ids (settled.named ticket (completions ▸ member))
  · intro ticket member record below phase same
    rw [completions] at member
    rcases split (some record) below with here | old
    · cases here
      have id := (RestartRecord.sameTicket_iff.mp same).1
      exact fresh (id ▸ settled.named ticket member)
    · exact settled.below ticket member record old phase same

/-- The restart in the file is completed. -/
theorem RestartHistory.Settled.complete (settled : history.Settled) {record expected : RestartRecord}
    {after : RestartHistory} (found : history.file = some record) (phase : record.phase = .armed)
    (agrees : record.sameTicket expected)
    (file : after.file = some { record with phase := .completed })
    (granted : after.granted = history.granted)
    (completions : after.completions = expected :: history.completions)
    (ids : history.ids ⊆ after.ids) (named : expected.restartId ∈ after.ids) : after.Settled := by
  have live : record.isCancelled = false := by simp [RestartRecord.isCancelled, phase]
  have kept : RestartHistory.Settled { after with completions := history.completions } := by
    refine settled.fixed granted rfl ids (.inr fun other present => ?_)
    cases file.symm.trans present
    exact ⟨by simp, fun _ => ids (settled.known record found live)⟩
  refine ⟨kept.known, kept.armed, kept.unique, ?_, ?_, ?_⟩
  · intro ticket member
    rw [completions] at member
    rcases List.mem_cons.mp member with rfl | old
    · exact named
    · exact kept.named ticket old
  · intro ticket _ other below armed
    have reached : some other = after.file := by
      refine below.eq_top fun expected armed armedOver present => ?_
      cases file.symm.trans present
      have phase := (kept.armed _ _ armedOver).1
      simp at phase
    cases file.symm.trans reached.symm
    simp at armed
  · rw [completions]
    refine List.pairwise_cons.mpr ⟨fun ticket member same => ?_, settled.once⟩
    refine settled.below ticket member record (found ▸ .top) phase ?_
    rw [RestartRecord.sameTicket_iff] at agrees same ⊢
    obtain ⟨id, instances, generation, version⟩ := agrees
    obtain ⟨id', instances', generation', version'⟩ := same
    exact ⟨id.trans id', instances.trans instances', generation.trans generation', version.trans version'⟩

theorem RestartHistory.Settled.step (settled : history.Settled) (io : RecordIo) {call : RestartCall}
    (promised : history.Promised call) : (history.step io call).Settled := by
  have ids : history.ids ⊆ (history.step io call).ids := List.subset_append_right _ _
  have cancelled (file : (∃ record : RestartRecord, call.file io history.file = some record.cancel) ∨
      call.file io history.file = history.file) :
      (history.step io call).file = history.file ∨ ∀ record, (history.step io call).file = some record →
        record.phase ≠ .armed ∧
          (record.isCancelled = false → record.restartId ∈ (history.step io call).ids) := by
    rcases file with ⟨cancelled, done⟩ | kept
    · refine .inr fun record found => ?_
      cases done.symm.trans found
      simp [RestartRecord.cancel, RestartRecord.isCancelled]
    · exact .inl kept
  cases call with
  | arm expected armed =>
    obtain ⟨phase, fresh⟩ := promised
    rcases armRestartRecord_spec io history.file expected armed with
      ⟨done, rfl, live⟩ | ⟨kept, refused⟩
    · refine settled.arm live phase fresh ?_ ?_ rfl ids ?_
      · simp [RestartHistory.step, RestartCall.file, done]
      · simp [RestartHistory.step, done]
      · simp [RestartHistory.step, RestartCall.ids]
    · refine settled.fixed ?_ rfl ids (.inl kept)
      simp only [RestartHistory.step]
  | rollback armed previous =>
    rcases rollbackArmedRestart_spec io history.file armed previous with ⟨done, own, live⟩ | kept
    · have file : (history.step io (.rollback armed previous)).file = previous := done
      have step : Under history.granted history.file previous := .down (own ▸ .top) promised
      refine ⟨?_, ?_, settled.unique, ?_, ?_, settled.once⟩
      · intro record found _
        exact ids ((settled.armed previous armed promised).2.2 record (file ▸ found))
      · intro expected other member
        obtain ⟨phase, named, under⟩ := settled.armed expected other member
        exact ⟨phase, ids named, fun record found => ids (under record found)⟩
      · exact fun ticket member => ids (settled.named ticket member)
      · intro ticket member record below
        rw [file] at below
        exact settled.below ticket member record (step.trans below)
    · exact settled.fixed rfl rfl ids (.inl kept)
  | complete expected =>
    rcases completeMatchingArmedRestart_spec io history.file expected with
      ⟨record, found, same, phase, done⟩ | ⟨kept, refused⟩
    · refine settled.complete found phase same ?_ rfl ?_ ids ?_
      · simp [RestartHistory.step, RestartCall.file, done]
      · simp [RestartHistory.step, done]
      · simp [RestartHistory.step, RestartCall.ids]
    · refine settled.fixed rfl ?_ ids (.inl kept)
      simp only [RestartHistory.step]
  | cancelForStop uuid =>
    exact settled.fixed rfl rfl ids (cancelled (cancelRestartIntentForStop_spec io history.file uuid))
  | cancelFence intent uuid =>
    refine settled.fixed rfl rfl ids (cancelled ?_)
    cases intent with
    | some intent =>
      exact (writeRestartRecord_spec io history.file intent.cancel).imp_left (⟨intent, ·⟩)
    | none => exact cancelRestartIntentForStop_spec io history.file uuid
  | cancelMatching armed =>
    exact settled.fixed rfl rfl ids (cancelled (cancelMatchingArmedRestart_spec io history.file armed))
  | clear =>
    refine settled.fixed rfl rfl ids ?_
    refine (clearCancelledRestartRecord_spec io history.file).symm.imp_right fun cleared record found => ?_
    cases cleared.symm.trans found

end Tickets

section Runs

variable {history : RestartHistory}

theorem RestartHistory.Settled.run (settled : history.Settled) {calls : List (RecordIo × RestartCall)}
    (promised : history.AllPromised calls) : (history.run calls).Settled := by
  induction calls generalizing history with
  | nil => exact settled
  | cons call rest ih => exact ih (settled.step call.1 promised.1) promised.2

theorem RestartHistory.run_cancelled {calls : List (RecordIo × RestartCall)}
    (cancelled : history.file.any RestartRecord.isCancelled)
    (kept : ∀ call ∈ calls, call.2 ≠ .clear) :
    (history.run calls).file.any RestartRecord.isCancelled := by
  induction calls generalizing history with
  | nil => exact cancelled
  | cons call rest ih =>
    refine ih ?_ fun other member => kept other (List.mem_cons_of_mem _ member)
    exact RestartCall.stays_cancelled cancelled (kept call (List.mem_cons_self ..))

/-- After any calls on the file, in any order: a cancelled record stays cancelled until a call clears
it; no ticket has been answered `Completed` twice, and the next such answer finds exactly the ticket,
armed, in the file; and a rollback changes the file only if it still holds what its caller armed. -/
theorem RestartHistory.stop_wins (file : Option RestartRecord) (calls : List (RecordIo × RestartCall))
    (promised : (RestartHistory.start file).AllPromised calls) :
    (∀ later : List (RecordIo × RestartCall), (∀ call ∈ later, call.2 ≠ .clear) →
      ((RestartHistory.start file).run calls).file.any RestartRecord.isCancelled →
      (((RestartHistory.start file).run calls).run later).file.any RestartRecord.isCancelled) ∧
    ((RestartHistory.start file).run calls).completions.Pairwise
      (fun later earlier => ¬ later.sameTicket earlier) ∧
    (∀ io expected, (completeMatchingArmedRestart io expected
        ((RestartHistory.start file).run calls).file).1 = .ok .completed →
      ∃ record, ((RestartHistory.start file).run calls).file = some record ∧
        record.sameTicket expected ∧ record.phase = .armed) ∧
    ∀ io armed previous,
      ((RestartHistory.start file).run calls).Promised (.rollback armed previous) →
      (rollbackArmedRestart io armed previous ((RestartHistory.start file).run calls).file).2 ≠
        ((RestartHistory.start file).run calls).file →
      ((RestartHistory.start file).run calls).file = some armed ∧ armed.phase = .armed := by
  have settled := (RestartHistory.settled_start file).run promised
  refine ⟨fun later kept cancelled => RestartHistory.run_cancelled cancelled kept, settled.once, ?_, ?_⟩
  · intro io expected answered
    rcases completeMatchingArmedRestart_spec io _ expected with
      ⟨record, found, same, phase, -⟩ | ⟨-, refused⟩
    · exact ⟨record, found, same, phase⟩
    · exact absurd answered refused
  · intro io armed previous granted changed
    rcases rollbackArmedRestart_spec io _ armed previous with ⟨-, own, -⟩ | kept
    · exact ⟨own, (settled.armed previous armed granted).1⟩
    · exact absurd kept changed

/-- A restart that is armed and completed before a stop cancels it. -/
def stoppedRestart : List (RecordIo × RestartCall) :=
  let ticket : RestartRecord := ⟨"restart", "daemon", ipcProtocolVersion, "generation", .armed, false⟩
  [({}, .arm none ticket), ({}, .complete ticket), ({}, .cancelForStop "stop")]

theorem RestartHistory.stop_wins_over_completed :
    (RestartHistory.start none).AllPromised stoppedRestart ∧
    ((RestartHistory.start none).run stoppedRestart).completions.length = 1 ∧
    ((RestartHistory.start none).run stoppedRestart).completions.Pairwise
      (fun later earlier => ¬ later.sameTicket earlier) ∧
    ∀ later : List (RecordIo × RestartCall), (∀ call ∈ later, call.2 ≠ .clear) →
      (((RestartHistory.start none).run stoppedRestart).run later).file.any
        RestartRecord.isCancelled := by
  have promised : (RestartHistory.start none).AllPromised stoppedRestart :=
    ⟨⟨rfl, by decide⟩, trivial, trivial, trivial⟩
  obtain ⟨stays, once, -, -⟩ := RestartHistory.stop_wins none stoppedRestart promised
  exact ⟨promised, by decide, once, fun later kept => stays later kept (by decide)⟩

end Runs

end CueShell
