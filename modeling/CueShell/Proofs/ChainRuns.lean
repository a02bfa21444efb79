import CueShell.Proofs.ChainInvariant

/-! # What holds in every state of a chain run

`Sound` collects the facts that every operation of a run keeps: the table has an entry for exactly
the leaves of the chain, the log of started leaves has no repetition, leaves outside the log are
pending or cancelled, and the tree is guarded with respect to the log.
-/

namespace CueShell

variable {node left right : ChainNode} {run : ChainRun} {offset index finished : ℕ}
variable {outcome : LeafOutcome} {statuses before recorded : Statuses} {triggered : ℕ → Prop}

/-- A leaf becomes ready only if it was not triggered before. -/
theorem newlyReady_untriggered (guarded : Guarded triggered node offset before)
    (step : Finishes triggered finished before recorded) (covered : node.Covers offset finished)
    (ready : index ∈ (node.advanced offset finished recorded).newlyReady) : ¬ triggered index := by
  induction covered using ChainNode.Covers.path_induction with
  | leaf plan => simp [advanced_leaf] at ready
  | serialLeft left op right offset covered _ ih =>
    rw [advanced_serial_left covered] at ready
    rcases List.mem_append.mp ready with inner | released
    · exact ih guarded.1 inner
    · intro fired
      have inRight := entries_covered (mem_follow_newlyReady.mp released).2.2.1
      exact step.unfinished ((guarded.2.2 ⟨index, inRight, fired⟩).1 _ covered)
  | serialRight left op right offset covered _ ih =>
    rw [advanced_serial_right covered] at ready
    exact ih guarded.2.1 ready
  | parallelLeft left op right offset covered _ ih =>
    rw [advanced_parallel_left covered, ChainTransition.newlyReady_append, verdict_newlyReady,
      List.append_nil] at ready
    exact ih guarded.1 ready
  | parallelRight left op right offset covered _ ih =>
    rw [advanced_parallel_right covered, ChainTransition.newlyReady_append, verdict_newlyReady,
      List.append_nil] at ready
    exact ih guarded.2.1 ready

@[simp] theorem covers_root : node.Covers 0 index ↔ index < node.leafCount := by
  simp [ChainNode.Covers]

/-- The exit code of a final status agrees with its kind. -/
def LeafStatus.Coded : LeafStatus → Prop
  | .done code => code = 0
  | .failed code => code ≠ 0
  | .pending | .running | .cancelled => True

namespace LeafOutcome

@[simp] theorem status_isTerminal (outcome : LeafOutcome) : outcome.status.isTerminal = true := by
  cases outcome with
  | exited code =>
    rw [status]
    split <;> rfl
  | killed => rfl
  | cancelled => rfl

/-- The scheduler stores exit code zero as done and every other one as failed. -/
theorem status_coded (outcome : LeafOutcome) : outcome.status.Coded := by
  cases outcome with
  | exited code =>
    rw [status]
    split
    · assumption
    · assumption
  | killed => exact (by decide : exitCodeUnavailable ≠ 0)
  | cancelled => trivial

end LeafOutcome

namespace ChainRun

/-- The invariant of chain runs. -/
structure Sound (node : ChainNode) (run : ChainRun) : Prop where
  domain : ∀ index, (run.statuses index).isSome ↔ index < node.leafCount
  nodup : run.started.Nodup
  inRange : ∀ index ∈ run.started, index < node.leafCount
  waiting : ∀ index, index ∉ run.started → index < node.leafCount →
    run.statuses index = some .pending ∨ run.statuses index = some .cancelled
  coded : ∀ index status, run.statuses index = some status → status.Coded
  guarded : Guarded (· ∈ run.started) node 0 run.statuses

section Start

variable {ready held : List ℕ}

theorem start_statuses_of_not_mem (absent : index ∉ ready) :
    (run.start ready held).statuses index = run.statuses index := by
  simp [start, Statuses.setAll, absent]

/-- Starting pending leaves changes neither which leaves have ended nor which have succeeded. -/
theorem start_terminal (pending : ∀ index ∈ ready, run.statuses index = some .pending) :
    (run.start ready held).statuses.Terminal index ↔ run.statuses.Terminal index := by
  by_cases member : index ∈ ready
  · by_cases waits : index ∈ held <;>
      simp [Statuses.Terminal, start, Statuses.setAll, member, waits, pending index member,
        LeafStatus.isTerminal]
  · rw [Statuses.Terminal, Statuses.Terminal, start_statuses_of_not_mem member]

theorem start_succeeded (pending : ∀ index ∈ ready, run.statuses index = some .pending) :
    (run.start ready held).statuses.Succeeded index ↔ run.statuses.Succeeded index := by
  by_cases member : index ∈ ready
  · by_cases waits : index ∈ held <;>
      simp [Statuses.Succeeded, start, Statuses.setAll, member, waits, pending index member]
  · rw [Statuses.Succeeded, Statuses.Succeeded, start_statuses_of_not_mem member]

/-- Starting fresh pending leaves keeps the invariant, once the tree is guarded against them. -/
theorem Sound.start (domain : ∀ index, (run.statuses index).isSome ↔ index < node.leafCount)
    (nodup : (run.started ++ ready).Nodup)
    (inRange : ∀ index ∈ run.started, index < node.leafCount)
    (waiting : ∀ index, index ∉ run.started → index < node.leafCount →
      run.statuses index = some .pending ∨ run.statuses index = some .cancelled)
    (coded : ∀ index status, run.statuses index = some status → status.Coded)
    (pending : ∀ index ∈ ready, run.statuses index = some .pending)
    (guarded : Guarded (fun index => index ∈ run.started ∨ index ∈ ready) node 0 run.statuses) :
    Sound node (run.start ready held) where
  domain index := by
    rw [← domain index]
    by_cases member : index ∈ ready.filter (· ∉ held)
    · have present := pending index (List.mem_filter.mp member).1
      simp only [ChainRun.start, Statuses.setAll, if_pos member, present, Option.isSome_some]
    · simp only [ChainRun.start, Statuses.setAll, if_neg member]
  nodup := nodup
  inRange index member := by
    rcases List.mem_append.mp member with old | new
    · exact inRange index old
    · exact (domain index).mp (by rw [pending index new]; rfl)
  waiting index absent inChain := by
    obtain ⟨notOld, notNew⟩ := not_or.mp (fun either => absent (List.mem_append.mpr either))
    rw [start_statuses_of_not_mem notNew]
    exact waiting index notOld inChain
  coded index status stored := by
    by_cases member : index ∈ ready.filter (· ∉ held)
    · simp only [ChainRun.start, Statuses.setAll, if_pos member, Option.some.injEq] at stored
      exact stored ▸ trivial
    · simp only [ChainRun.start, Statuses.setAll, if_neg member] at stored
      exact coded index status stored
  guarded := guarded.congr (fun _ _ => List.mem_append.symm)
    (fun _ _ => (start_terminal pending).symm) (fun _ _ => (start_succeeded pending).symm)

end Start

theorem allPending_of_lt (inChain : index < node.leafCount) :
    Statuses.allPending node index = some .pending := if_pos inChain

theorem Sound.launch (node : ChainNode) (held : List ℕ) : Sound node (launch node held) := by
  have entry : ∀ index ∈ initiallyReady node, index < node.leafCount := by
    intro index ready
    rw [initiallyReady_eq] at ready
    exact covers_root.mp (entries_covered ready)
  refine Sound.start (fun index => ?_) ?_ (by simp) (fun index _ inChain => ?_)
    (fun index status stored => ?_) (fun index ready => allPending_of_lt (entry index ready)) ?_
  · by_cases inChain : index < node.leafCount <;> simp [Statuses.allPending, inChain]
  · rw [List.nil_append, initiallyReady_eq]
    exact entries_nodup node 0
  · exact .inl (allPending_of_lt inChain)
  · have pending : status = .pending := by
      by_cases inChain : index < node.leafCount <;> simp_all [Statuses.allPending]
    exact pending ▸ trivial
  · refine guarded_of_entries (fun index _ fired => ?_) (fun index covered => ?_)
    · rw [← initiallyReady_eq]
      exact fired.resolve_left List.not_mem_nil
    · simp [Statuses.Succeeded, allPending_of_lt (covers_root.mp covered)]

section Complete

theorem recorded_self : run.recorded index outcome index = some outcome.status :=
  Function.update_self ..

theorem recorded_of_ne {other : ℕ} (apart : other ≠ index) :
    run.recorded index outcome other = run.statuses other :=
  Function.update_of_ne apart ..

/-- The leaf that ends has been started and has not ended before. -/
theorem Sound.finishes (member : index ∈ run.started)
    (active : run.statuses index = some .running ∨ run.statuses index = some .pending) :
    Finishes (· ∈ run.started) index run.statuses (run.recorded index outcome) where
  fired := member
  unfinished := by
    rcases active with status | status <;> simp [Statuses.Terminal, status, LeafStatus.isTerminal]
  same _ apart := recorded_of_ne apart

variable (sound : Sound node run) (member : index ∈ run.started)

include sound member in
theorem Sound.recorded_domain (outcome : LeafOutcome) (other : ℕ) :
    (run.recorded index outcome other).isSome ↔ other < node.leafCount := by
  by_cases same : other = index
  · subst same
    simp [recorded_self, sound.inRange other member]
  · rw [recorded_of_ne same]
    exact sound.domain other

include sound in
/-- Only started leaves have succeeded. -/
theorem Sound.idle (absent : index ∉ run.started) : ¬ run.statuses.Succeeded index := by
  intro succeeded
  have inChain : index < node.leafCount := (sound.domain index).mp (by rw [succeeded]; rfl)
  rcases sound.waiting index absent inChain with status | status <;>
    simp [Statuses.Succeeded, status] at succeeded

variable (active : run.statuses index = some .running ∨ run.statuses index = some .pending)

include sound member active in
theorem Sound.kept (outcome : LeafOutcome) :
    Kept (· ∈ run.started) node 0 index (run.recorded index outcome) := by
  refine sound.guarded.advance (Sound.finishes member active)
    (covers_root.mpr (sound.inRange index member)) (fun other covered => ?_)
    (fun other _ absent => sound.idle absent)
  exact (sound.recorded_domain member outcome other).mpr (covers_root.mp covered)

include sound member active in
/-- A leaf that becomes ready is a pending leaf of the chain that has not been started. -/
theorem Sound.ready_fresh {other : ℕ} (ready : other ∈ (run.advance node index outcome).newlyReady) :
    other < node.leafCount ∧ run.recorded index outcome other = some .pending ∧
      other ∉ run.started := by
  have covered : node.Covers 0 index := covers_root.mpr (sound.inRange index member)
  obtain ⟨inside, fresh⟩ := newlyReady_sound covered ready
  have inChain := covers_root.mp inside
  have present := (sound.recorded_domain member outcome other).mpr inChain
  refine ⟨inChain, (untouched_iff.mp fresh).resolve_right fun absent => ?_, ?_⟩
  · simp [absent] at present
  · exact newlyReady_untriggered sound.guarded (Sound.finishes member active) covered ready

include sound member active in
theorem Sound.contested (outcome : LeafOutcome) :
    Contested node 0 index (run.recorded index outcome) :=
  sound.guarded.contested (Sound.finishes member active)
    (covers_root.mpr (sound.inRange index member))

include sound member active in
/-- No leaf is both started and cancelled. -/
theorem Sound.ready_apart {other : ℕ} (ready : other ∈ (run.advance node index outcome).newlyReady) :
    other ∉ (run.advance node index outcome).toCancel :=
  newlyReady_not_toCancel (covers_root.mpr (sound.inRange index member))
    (sound.contested member active outcome) ready

theorem settled_of_mem {other : ℕ} (dropped : other ∈ (run.advance node index outcome).toCancel) :
    run.settled node index outcome other = some .cancelled := if_pos dropped

theorem settled_of_not_mem {other : ℕ}
    (spared : other ∉ (run.advance node index outcome).toCancel) :
    run.settled node index outcome other = run.recorded index outcome other := if_neg spared

include sound member active in
theorem Sound.complete (outcome : LeafOutcome) (held : List ℕ) :
    Sound node (run.complete node index outcome held) := by
  have covered : node.Covers 0 index := covers_root.mpr (sound.inRange index member)
  have dropInside : ∀ other ∈ (run.advance node index outcome).toCancel, other < node.leafCount :=
    fun other dropped => covers_root.mp (toCancel_sound covered dropped).1
  refine Sound.start (fun other => ?_) ?_ sound.inRange (fun other absent inChain => ?_)
    (fun other status stored => ?_) (fun other ready => ?_) (sound.kept member active outcome)
  · by_cases dropped : other ∈ (run.advance node index outcome).toCancel
    · simp [settled_of_mem dropped, dropInside other dropped]
    · change (run.settled node index outcome other).isSome ↔ _
      rw [settled_of_not_mem dropped]
      exact sound.recorded_domain member outcome other
  · refine sound.nodup.append (newlyReady_nodup _ covered) (fun other old ready => ?_)
    exact (sound.ready_fresh member active ready).2.2 old
  · by_cases dropped : other ∈ (run.advance node index outcome).toCancel
    · exact .inr (settled_of_mem dropped)
    · have apart : other ≠ index := fun same => absent (same ▸ member)
      change run.settled node index outcome other = _ ∨ run.settled node index outcome other = _
      rw [settled_of_not_mem dropped, recorded_of_ne apart]
      exact sound.waiting other absent inChain
  · change run.settled node index outcome other = _ at stored
    by_cases dropped : other ∈ (run.advance node index outcome).toCancel
    · rw [settled_of_mem dropped, Option.some.injEq] at stored
      exact stored ▸ trivial
    · rw [settled_of_not_mem dropped] at stored
      by_cases same : other = index
      · rw [same, recorded_self, Option.some.injEq] at stored
        exact stored ▸ outcome.status_coded
      · rw [recorded_of_ne same] at stored
        exact sound.coded other status stored
  · have spared := sound.ready_apart member active ready
    change run.settled node index outcome other = _
    rw [settled_of_not_mem spared]
    exact (sound.ready_fresh member active ready).2.1

end Complete

theorem Sound.grant (sound : Sound node run) (member : index ∈ run.started)
    (pending : run.statuses index = some .pending) : Sound node (run.grant index) := by
  have others : ∀ other, other ≠ index → (run.grant index).statuses other = run.statuses other :=
    fun other apart => Function.update_of_ne apart ..
  have self : (run.grant index).statuses index = some .running := Function.update_self ..
  refine ⟨fun other => ?_, sound.nodup, sound.inRange, fun other absent inChain => ?_,
    fun other status stored => ?_, ?_⟩
  · rw [← sound.domain other]
    by_cases same : other = index
    · rw [same, self, pending]
      rfl
    · rw [others other same]
  · rw [others other fun same => absent (same ▸ member)]
    exact sound.waiting other absent inChain
  · by_cases same : other = index
    · rw [same, self, Option.some.injEq] at stored
      exact stored ▸ trivial
    · exact sound.coded other status (others other same ▸ stored)
  · refine sound.guarded.congr (fun _ _ => Iff.rfl) (fun other _ => ?_) (fun other _ => ?_)
    · by_cases same : other = index
      · simp [Statuses.Terminal, same, self, pending, LeafStatus.isTerminal]
      · rw [Statuses.Terminal, Statuses.Terminal, others other same]
    · by_cases same : other = index
      · simp [Statuses.Succeeded, same, self, pending]
      · rw [Statuses.Succeeded, Statuses.Succeeded, others other same]

/-- Every state of a run is sound. -/
theorem Scheduled.sound (scheduled : Scheduled node run) : Sound node run := by
  induction scheduled with
  | launch held => exact .launch node held
  | complete outcome held _ member active ih => exact ih.complete member active outcome held
  | grant _ member pending ih => exact ih.grant member pending

/-- Leaves outside the log are pending or cancelled, so a running leaf has been started. -/
theorem Sound.started_of_running (sound : Sound node run)
    (running : run.statuses index = some .running) : index ∈ run.started := by
  by_contra absent
  have inChain : index < node.leafCount := (sound.domain index).mp (by rw [running]; rfl)
  rcases sound.waiting index absent inChain with status | status <;> simp [status] at running

theorem Reachable.scheduled (reachable : Reachable node run) : Scheduled node run := by
  induction reachable with
  | launch => exact .launch []
  | complete outcome _ running ih =>
    exact ih.complete outcome [] (ih.sound.started_of_running running) (.inl running)

theorem Reachable.sound (reachable : Reachable node run) : Sound node run :=
  reachable.scheduled.sound

/-- In a run without held leaves, a started leaf is never pending. -/
theorem Reachable.started_ne_pending (reachable : Reachable node run) :
    ∀ index ∈ run.started, run.statuses index ≠ some .pending := by
  induction reachable with
  | launch =>
    intro index member
    have ready : index ∈ initiallyReady node := member
    simp [ChainRun.launch, start, Statuses.setAll, ready]
  | @complete run index outcome _ active ih =>
    intro other member
    rw [ChainRun.complete]
    by_cases ready : other ∈ (run.advance node index outcome).newlyReady
    · simp [start, Statuses.setAll, ready]
    · rw [start_statuses_of_not_mem ready]
      have old : other ∈ run.started := (List.mem_append.mp member).resolve_right ready
      by_cases dropped : other ∈ (run.advance node index outcome).toCancel
      · simp [settled_of_mem dropped]
      · change run.settled node index outcome other ≠ _
        rw [settled_of_not_mem dropped]
        by_cases same : other = index
        · rw [same, recorded_self]
          intro pending
          have ended := outcome.status_isTerminal
          rw [Option.some.inj pending] at ended
          simp [LeafStatus.isTerminal] at ended
        · rw [recorded_of_ne same]
          exact ih other old

end ChainRun

end CueShell
