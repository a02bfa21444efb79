import CueShell.Proofs.ForegroundLeases

/-! # The foreground lease

The control of a terminal is held by one of its observers, every attachment has an id of its own and
is told once that it has ended, and nothing stays attached to a foreground that is closed. That a
client observes one job at a time is checked against the table of the process manager: it does not
hold for a job that a kill has taken out of the table while its reader has not ended yet.
-/

namespace CueShell.ProcessManager

variable {manager : ProcessManager}

/-- The lease of all foregrounds. The reader of a job that has sent all it had to send has told every
attachment that ended. -/
structure LeaseHolds (manager : ProcessManager) : Prop where
  controllerObserves : ∀ jobId clientId, (manager.foreground jobId).controller = some clientId →
    (manager.foreground jobId).observes clientId
  closedIsEmpty : ∀ jobId, (manager.foreground jobId).closed = true →
    (manager.foreground jobId).observers = .empty ∧ (manager.foreground jobId).controller = none
  idsIncrease : ∀ jobId,
    ((manager.view jobId).attached.map fun record => record.info.attachmentId).Pairwise (· < ·)
  endedOnce : ∀ jobId, ∀ record ∈ (manager.view jobId).attached,
    ¬ (manager.view jobId).Attached record →
      exitsOf ((manager.view jobId).sent ++ (manager.task jobId).outgoing) record = 1
  attachedNever : ∀ jobId, ∀ record ∈ (manager.view jobId).attached,
    (manager.view jobId).Attached record →
      exitsOf ((manager.view jobId).sent ++ (manager.task jobId).outgoing) record = 0
  inputControlled : ∀ clientId jobId input, manager.fgInput clientId = some (jobId, input) →
    (manager.foreground jobId).controller = some clientId
  ptyInputControlled : ∀ clientId jobId, manager.sendJobInput clientId jobId = some .pty →
    (manager.foreground jobId).controller = some clientId
  resizeControlled : ∀ clientId jobId, manager.fgResize clientId = some jobId →
    (manager.foreground jobId).controller = some clientId
  observesOne : ∀ clientId first second, (manager.foreground first).observes clientId →
    (manager.foreground first).closed = false → (manager.foreground second).observes clientId →
    (manager.foreground second).closed = false → first = second

/-- The client of an attach observes no job whose entry has been taken out of the table. -/
def AttachesListed (manager : ProcessManager) : ProcessStep → Prop
  | .attach clientId _ _ => ∀ jobId, (manager.foreground jobId).observes clientId →
      ∃ entry ∈ manager.children, entry.jobId = jobId
  | _ => True

section Input

theorem fgInput_controlled {clientId : ℕ} {jobId : JobId} {input : JobInput}
    (taken : manager.fgInput clientId = some (jobId, input)) :
    (manager.foreground jobId).controller = some clientId := by
  obtain ⟨entry, found, given⟩ := Option.bind_eq_some_iff.mp taken
  obtain ⟨kind, -, same⟩ := Option.map_eq_some_iff.mp given
  cases same
  simpa using List.find?_some found

theorem fgResize_controlled {clientId : ℕ} {jobId : JobId} (taken : manager.fgResize clientId = some jobId) :
    (manager.foreground jobId).controller = some clientId := by
  obtain ⟨entry, found, rfl⟩ := Option.map_eq_some_iff.mp taken
  obtain ⟨found, -⟩ := Option.filter_eq_some_iff.mp found
  simpa using List.find?_some found

theorem sendJobInput_controlled {clientId : ℕ} {jobId : JobId}
    (taken : manager.sendJobInput clientId jobId = some .pty) :
    (manager.foreground jobId).controller = some clientId := by
  obtain ⟨entry, -, given⟩ := Option.bind_eq_some_iff.mp taken
  obtain ⟨-, allowed⟩ := Option.filter_eq_some_iff.mp given
  simpa [jobInputKindAllowsClient] using allowed

end Input

section One

/-- Observers come only with an attachment. -/
theorem observes_of_move {view next : JobView} {clientId : ℕ} (move : JobMove view next)
    (observes : next.task.foreground.observes clientId) (kept : next.attached = view.attached) :
    view.task.foreground.observes clientId := by
  cases move with
  | attach done id snapshot quiet => simp at kept
  | control controller others quiet => exact observes
  | detach reason done quiet =>
    obtain ⟨-, rfl⟩ := ForegroundState.detach_some done
    dsimp only [ForegroundState.observes] at observes ⊢
    rw [Table.get_erase] at observes
    split at observes
    · cases observes
    · exact observes
  | chunk data idle => exact observes
  | emit first => exact observes
  | close reason idle isOpen => cases observes

theorem observes_of_moves {view next : JobView} {clientId : ℕ} (moves : JobMoves view next) :
    view.attached.length ≤ next.attached.length ∧
      (next.attached.length = view.attached.length → next.task.foreground.observes clientId →
        view.task.foreground.observes clientId) := by
  induction moves with
  | refl => exact ⟨Nat.le_refl _, fun _ observes => observes⟩
  | @tail middle last _ move ih =>
    have grows : middle.attached.length ≤ last.attached.length ∧
        (last.attached.length = middle.attached.length → last.attached = middle.attached) := by
      cases move with
      | attach done id snapshot quiet => simp
      | _ => exact ⟨Nat.le_refl _, fun _ => rfl⟩
    refine ⟨Nat.le_trans ih.1 grows.1, fun same observes => ?_⟩
    have middle_same : last.attached.length = middle.attached.length := by omega
    exact ih.2 (by omega) (observes_of_move move observes (grows.2 middle_same))

/-- Only an attach that succeeds adds to the attachments. -/
theorem attached_step {step : ProcessStep} (other : ∀ clientId jobId role, step ≠ .attach clientId jobId role) :
    (manager.step step).attached = manager.attached := by
  have control : ∀ clientId available change,
      (manager.changeControl clientId available change).1.attached = manager.attached := by
    intro clientId available change
    unfold changeControl
    split
    · rfl
    · split <;> rfl
  have entries : ∀ clientId reason (entries : List ProcessEntry) (manager : ProcessManager),
      (detachEntries clientId reason entries manager).attached = manager.attached := by
    intro clientId reason entries
    induction entries with
    | nil => exact fun _ => rfl
    | cons entry rest ih =>
      intro manager
      rw [detachEntries]
      split
      · exact ih manager
      · exact ih _
  cases step with
  | attach clientId jobId role => exact absurd rfl (other clientId jobId role)
  | spawn entry =>
    rw [step, spawnJob]
    split <;> rfl
  | claim clientId => exact control _ _ _
  | release clientId => exact control _ _ _
  | detach clientId reason => exact entries _ _ _ _
  | cleanup =>
    rw [step, cleanup]
    split <;> rfl
  | emit jobId =>
    rw [step, emitNext]
    split <;> rfl
  | exit jobId reason =>
    rw [step, closeForeground]
    split <;> rfl
  | _ => rfl

/-- Whom an attach adds, and where. -/
theorem observes_attachFg {clientId other : ℕ} {target jobId : JobId} {role : ForegroundRole}
    (observes : ((manager.attachFg clientId target role).1.foreground jobId).observes other) :
    (manager.foreground jobId).observes other ∨
      other = clientId ∧ jobId = target ∧
        (manager.foregroundJobForClient clientId).filter (· ≠ target) = none := by
  unfold attachFg at observes
  split at observes
  · exact .inl observes
  rename_i free
  split at observes
  · exact .inl observes
  split at observes
  · exact .inl observes
  rename_i next info recipients done
  obtain ⟨outcome, attached, -, -⟩ := attachForeground_ok done
  obtain ⟨-, -, -, rfl⟩ := ForegroundState.attach_ok attached
  change ((manager.setForeground target _).foreground jobId).observes other = true at observes
  rw [foreground, setForeground, task_setTask] at observes
  split at observes
  · rename_i here
    subst here
    dsimp only [ForegroundState.observes] at observes
    rw [Table.get_insert] at observes
    split at observes
    · rename_i same
      exact .inr ⟨same, rfl, free⟩
    · exact .inl observes
  · exact .inl observes

/-- A client that observes a job of the table is found to observe some job. -/
theorem foregroundJobForClient_some {clientId : ℕ} {entry : ProcessEntry} (listed : entry ∈ manager.children)
    (observes : (manager.foreground entry.jobId).observes clientId) :
    ∃ current, manager.foregroundJobForClient clientId = some current ∧
      (manager.foreground current).observes clientId := by
  cases found : manager.children.find? fun entry => (manager.foreground entry.jobId).observes clientId with
  | none =>
    have absent := List.find?_eq_none.mp found entry listed
    exact absurd observes absent
  | some first =>
    refine ⟨first.jobId, by rw [foregroundJobForClient, found]; rfl, ?_⟩
    simpa using List.find?_some found

/-- A client observes one job. -/
def ObservesOne (manager : ProcessManager) : Prop :=
  ∀ clientId first second, (manager.foreground first).observes clientId →
    (manager.foreground second).observes clientId → first = second

theorem ObservesOne.attach {clientId : ℕ} {target : JobId} {role : ForegroundRole} (one : manager.ObservesOne)
    (listed : manager.AttachesListed (.attach clientId target role)) :
    (manager.attachFg clientId target role).1.ObservesOne := by
  -- A job that the client observed before would have been found.
  have free : ∀ jobId, (manager.foregroundJobForClient clientId).filter (· ≠ target) = none →
      (manager.foreground jobId).observes clientId → jobId = target := by
    intro jobId none observes
    obtain ⟨entry, member, rfl⟩ := listed jobId observes
    obtain ⟨current, found, also⟩ := foregroundJobForClient_some member observes
    rw [one clientId entry.jobId current observes also]
    rw [found] at none
    simpa using none
  intro other first second here there
  rcases observes_attachFg here with old | ⟨rfl, rfl, none⟩
  · rcases observes_attachFg there with old' | ⟨rfl, rfl, none⟩
    · exact one other first second old old'
    · exact free first none old
  · rcases observes_attachFg there with old' | ⟨-, rfl, -⟩
    · exact (free second none old').symm
    · rfl

theorem ObservesOne.step {step : ProcessStep} (one : manager.ObservesOne) (enabled : manager.Enabled step)
    (listed : manager.AttachesListed step) : (manager.step step).ObservesOne := by
  by_cases attach : ∃ clientId jobId role, step = .attach clientId jobId role
  · obtain ⟨clientId, jobId, role, rfl⟩ := attach
    exact one.attach listed
  · have kept : (manager.step step).attached = manager.attached :=
      attached_step fun clientId jobId role equal => attach ⟨clientId, jobId, role, equal⟩
    intro clientId first second here there
    have before : ∀ jobId, ((manager.step step).foreground jobId).observes clientId →
        (manager.foreground jobId).observes clientId := by
      intro jobId observes
      refine (observes_of_moves (step_moves enabled jobId)).2 ?_ observes
      rw [view, view, kept]
    exact one clientId first second (before first here) (before second there)

theorem Reachable.observesOne (run : Reachable AttachesListed manager) : manager.ObservesOne := by
  induction run with
  | start => exact fun clientId first second here => by cases here
  | step _ step enabled permitted ih => exact ih.step enabled permitted

end One

/-- The lease in every state of every run in which a client that still observes a killed job waits for its
end before it attaches anew. -/
theorem lease_holds (run : Reachable AttachesListed manager) : manager.LeaseHolds where
  controllerObserves := fun jobId clientId held => (run.leased jobId).controller clientId held
  closedIsEmpty := fun jobId isClosed => by
    have empty := (run.leased jobId).closed isClosed
    refine ⟨Table.ext_get fun clientId => empty clientId, ?_⟩
    cases held : (manager.foreground jobId).controller with
    | none => rfl
    | some clientId =>
      have listed := (run.leased jobId).controller clientId held
      rw [ForegroundState.observes, empty clientId] at listed
      cases listed
  idsIncrease := fun jobId => (run.leased jobId).increasing
  endedOnce := fun jobId record member gone => ((run.leased jobId).exits record member).ended gone
  attachedNever := fun jobId record member here => ((run.leased jobId).exits record member).attached here
  inputControlled := fun _ _ _ taken => fgInput_controlled taken
  ptyInputControlled := fun _ _ taken => sendJobInput_controlled taken
  resizeControlled := fun _ _ taken => fgResize_controlled taken
  observesOne := fun clientId first second here _ there _ => run.observesOne clientId first second here there

/-- A terminal job that runs. -/
def terminalEntry (jobId : JobId) : ProcessEntry := ⟨jobId, .running, some .pty, true⟩

theorem lease_holds_attached :
    (((initial.step (.spawn (terminalEntry 1))).step (.attach 7 1 .controller)).step
      (.exit 1 "done")).LeaseHolds := by
  have spawned : Reachable AttachesListed (initial.step (.spawn (terminalEntry 1))) :=
    .step .start _ trivial trivial
  refine lease_holds (.step (.step spawned (.attach 7 1 .controller) trivial ?_) (.exit 1 "done")
    ⟨rfl, rfl⟩ trivial)
  intro jobId observes
  change ((initial.spawnJob (terminalEntry 1)).view jobId).task.foreground.observes 7 = true at observes
  rw [spawnJob_view] at observes
  cases observes

/-- A client attaches to a second job while a kill is under way in the first. -/
theorem observes_two_after_kill : ¬ ∀ manager, Reachable (fun _ _ => True) manager → manager.LeaseHolds := by
  intro holds
  have attached : Reachable (fun _ _ => True)
      ((initial.step (.spawn (terminalEntry 1))).step (.attach 7 1 .observer)) :=
    .step (.step .start (.spawn (terminalEntry 1)) trivial trivial) (.attach 7 1 .observer) trivial trivial
  have run := Reachable.step (.step (.step attached (.kill 1) trivial trivial)
    (.spawn (terminalEntry 2)) trivial trivial) (.attach 7 2 .observer) trivial trivial
  have same := (holds _ run).observesOne 7 1 2 (by decide) (by decide) (by decide) (by decide)
  cases same

end CueShell.ProcessManager
