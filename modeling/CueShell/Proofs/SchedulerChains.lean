import CueShell.Proofs.ChainRuns
import CueShell.Proofs.SchedulerTurns

/-! # Chains of the scheduler and runs of chains

While a message is handled, some leaves of a chain are still to be cancelled and some are still to be
started. A run of the chain is ahead of the table: its doomed leaves are cancelled already, and its ready
leaves are started but wait for resources. Entering a leaf then grants its resources, parking it leaves
the run as it is, and only the end of a leaf advances the run.
-/

namespace CueShell

section Chains

variable {node left right : ChainNode} {before recorded : Statuses} {triggered : ℕ → Prop}
variable {offset index finished : ℕ} {run : ChainRun}

/-- A leaf that fails cancels only leaves that have not been triggered. -/
theorem toCancel_untriggered (guarded : Guarded triggered node offset before)
    (step : Finishes triggered finished before recorded) (covered : node.Covers offset finished)
    (contested : Contested node offset finished recorded) (failed : ¬ recorded.Succeeded finished)
    (dropped : index ∈ (node.advanced offset finished recorded).toCancel) : ¬ triggered index := by
  induction covered using ChainNode.Covers.path_induction with
  | leaf plan => simp [advanced_leaf] at dropped
  | serialLeft left op right offset covered _ ih =>
    rw [Contested, if_pos covered.2] at contested
    rw [advanced_serial_left covered] at dropped
    rcases List.mem_append.mp dropped with inner | aborted
    · exact ih guarded.1 contested inner
    · intro fired
      have inRight := (mem_follow_toCancel.mp aborted).2.2.1
      exact step.unfinished ((guarded.2.2 ⟨index, inRight, fired⟩).1 _ covered)
  | serialRight left op right offset covered _ ih =>
    rw [Contested, if_neg (not_lt_of_ge covered.1)] at contested
    rw [advanced_serial_right covered] at dropped
    exact ih guarded.2.1 contested dropped
  | parallelLeft left op right offset covered _ ih =>
    rw [Contested, if_pos covered.2] at contested
    rw [advanced_parallel_left covered] at dropped
    rcases List.mem_append.mp dropped with inner | outrun
    · exact ih guarded.1 contested.2 inner
    · exact absurd ((verdict_right_of_contested contested.1 outrun).1 _ covered) failed
  | parallelRight left op right offset covered _ ih =>
    rw [Contested, if_neg (not_lt_of_ge covered.1)] at contested
    rw [advanced_parallel_right covered] at dropped
    rcases List.mem_append.mp dropped with inner | outrun
    · exact ih guarded.2.1 contested.2 inner
    · exact absurd ((verdict_left_of_contested contested.1 outrun).1 _ covered) failed

/-- A leaf that fails cancels no started leaf. -/
theorem ChainRun.Sound.cancel_fresh (sound : run.Sound node) (member : index ∈ run.started)
    (active : run.statuses index = some .running ∨ run.statuses index = some .pending)
    {outcome : LeafOutcome} (failed : outcome.status ≠ .done 0) {other : ℕ}
    (dropped : other ∈ (run.advance node index outcome).toCancel) : other ∉ run.started := by
  have covered : node.Covers 0 index := covers_root.mpr (sound.inRange index member)
  refine toCancel_untriggered sound.guarded (Sound.finishes member active) covered
    (sound.contested member active outcome) (fun succeeded => failed ?_) dropped
  have stored : run.recorded index outcome index = some outcome.status := recorded_self
  exact Option.some.inj (stored.symm.trans succeeded)

@[simp] theorem Statuses.setAll_nil (statuses : Statuses) (status : LeafStatus) :
    statuses.setAll [] status = statuses := by
  funext index
  simp [Statuses.setAll]

end Chains

/-- The leaves of a chain do what the leaves of a run do, once the doomed leaves are cancelled and the
ready leaves are started. -/
structure ChainState.Follows (chain : ChainState) (doomed ready : List ℕ) (run : ChainRun) :
    Prop where
  scheduled : ChainRun.Scheduled chain.node run
  statuses : run.statuses = chain.leafStatus.setAll doomed .cancelled
  started : ∀ index, index ∈ run.started ↔ (chain.leafJobs.get index).isSome ∨ index ∈ ready
  distinct : ready.Nodup
  waiting : ∀ index ∈ ready, chain.leafJobs.get index = none ∧ run.statuses index = some .pending
  open_ : ∀ index ∈ doomed,
    ¬ chain.leafStatus.Terminal index ∨ chain.leafStatus index = some .cancelled

/-- Every leaf that has not ended is cancelled. -/
def Statuses.cutOff (statuses : Statuses) : Statuses :=
  fun index => (statuses index).map fun status => if status.isTerminal then status else .cancelled

/-- A run of the chain was cut off: the leaves that had not ended are cancelled, but for those that are
still doomed. -/
structure ChainState.CutOff (chain : ChainState) (doomed : List ℕ) (run : ChainRun) : Prop where
  scheduled : ChainRun.Scheduled chain.node run
  statuses : ∀ index, chain.leafStatus index = run.statuses index ∨
    chain.leafStatus index = run.statuses.cutOff index
  started : ∀ index, index ∈ run.started ↔ (chain.leafJobs.get index).isSome
  inside : ∀ index ∈ doomed, index < chain.node.leafCount
  ended : ∀ index < chain.node.leafCount, index ∉ doomed → chain.leafStatus.Terminal index

/-- A chain is in the middle of a run, or is being cancelled as a whole. -/
inductive ChainState.OnCourse (chain : ChainState) (doomed ready : List ℕ) : Prop
  | follows (run : ChainRun) (follows : chain.Follows doomed ready run)
  | cutOff (run : ChainRun) (none : ready = []) (cutOff : chain.CutOff doomed run)

section Leaves

variable {chain : ChainState} {doomed ready : List ℕ} {run : ChainRun} {index : ℕ} {jobId : JobId}

theorem ChainState.setLeaf_self (chain : ChainState) (index : ℕ) (status : LeafStatus) :
    (chain.setLeaf index status).leafStatus index = some status :=
  Function.update_self ..

theorem ChainState.setLeaf_of_ne (chain : ChainState) {index other : ℕ} (status : LeafStatus)
    (apart : other ≠ index) : (chain.setLeaf index status).leafStatus other = chain.leafStatus other :=
  Function.update_of_ne apart ..

namespace ChainState.Follows

/-- A new chain follows the run in which all first leaves wait for resources. -/
theorem launch (fresh : chain.Fresh) :
    chain.Follows [] (initiallyReady chain.node) (ChainRun.launch chain.node (initiallyReady chain.node)) where
  scheduled := .launch _
  statuses := by
    funext index
    simp [ChainRun.launch, ChainRun.start, Statuses.setAll, Statuses.allPending, fresh.leafStatus]
  started index := by simp [ChainRun.launch, ChainRun.start, fresh.leafJobs]
  distinct := by
    rw [initiallyReady_eq]
    exact entries_nodup ..
  waiting index member := by
    rw [initiallyReady_eq] at member
    have inside : index < chain.node.leafCount := covers_root.mp (entries_covered member)
    refine ⟨by rw [fresh.leafJobs]; rfl, ?_⟩
    simp [ChainRun.launch, ChainRun.start, Statuses.setAll, Statuses.allPending, inside]
  open_ index member := absurd member List.not_mem_nil

/-- The first ready leaf is entered, and runs. -/
theorem enter (follows : chain.Follows [] (index :: ready) run) :
    (chain.enter index jobId .running).Follows [] ready (run.grant index) where
  scheduled := follows.scheduled.grant ((follows.started index).mpr (.inr List.mem_cons_self))
    (follows.waiting index List.mem_cons_self).2
  statuses := by
    rw [ChainRun.grant, follows.statuses, Statuses.setAll_nil, Statuses.setAll_nil]
    rfl
  started other := by
    rw [ChainRun.grant, follows.started other, ChainState.enter, Table.get_insert]
    by_cases same : other = index <;> simp [same]
  distinct := (List.nodup_cons.mp follows.distinct).2
  waiting other member := by
    have apart : other ≠ index := by
      rintro rfl
      exact (List.nodup_cons.mp follows.distinct).1 member
    obtain ⟨idle, pending⟩ := follows.waiting other (List.mem_cons_of_mem _ member)
    refine ⟨?_, (Function.update_of_ne apart ..).trans pending⟩
    exact (Table.get_insert ..).trans ((if_neg apart).trans idle)
  open_ other member := absurd member List.not_mem_nil

/-- The first ready leaf is entered, but waits for resources. -/
theorem park (follows : chain.Follows [] (index :: ready) run) :
    (chain.enter index jobId .pending).Follows [] ready run where
  scheduled := follows.scheduled
  statuses := by
    have pending := (follows.waiting index List.mem_cons_self).2
    rw [follows.statuses, Statuses.setAll_nil] at pending
    rw [follows.statuses, Statuses.setAll_nil, Statuses.setAll_nil]
    exact (Function.update_eq_self_iff.mpr pending.symm).symm
  started other := by
    rw [follows.started other, ChainState.enter, Table.get_insert]
    by_cases same : other = index <;> simp [same]
  distinct := (List.nodup_cons.mp follows.distinct).2
  waiting other member := by
    have apart : other ≠ index := by
      rintro rfl
      exact (List.nodup_cons.mp follows.distinct).1 member
    obtain ⟨idle, pending⟩ := follows.waiting other (List.mem_cons_of_mem _ member)
    exact ⟨(Table.get_insert ..).trans ((if_neg apart).trans idle), pending⟩
  open_ other member := absurd member List.not_mem_nil

/-- A leaf that has a job ends: the run goes on, and all leaves that become ready are started. -/
theorem finish (follows : chain.Follows [] ready run) (started : (chain.leafJobs.get index).isSome)
    (active : chain.leafStatus index = some .running ∨ chain.leafStatus index = some .pending)
    (outcome : LeafOutcome) (early : ready ≠ [] → outcome.status ≠ .done 0) :
    let later := chain.setLeaf index outcome.status
    let transition := advanceChain chain.node index later.leafStatus
    later.Follows transition.toCancel (ready ++ transition.newlyReady)
      (run.complete chain.node index outcome transition.newlyReady) := by
  intro later transition
  have sound := follows.scheduled.sound
  have member : index ∈ run.started := (follows.started index).mpr (.inl started)
  have statuses : run.statuses = chain.leafStatus := by
    rw [follows.statuses, Statuses.setAll_nil]
  rw [← statuses] at active
  have recorded : run.recorded index outcome = later.leafStatus := by
    rw [ChainRun.recorded, statuses]
    rfl
  have advance : run.advance chain.node index outcome = transition := by
    rw [ChainRun.advance, recorded]
  have settled : (run.complete chain.node index outcome transition.newlyReady).statuses =
      later.leafStatus.setAll transition.toCancel .cancelled := by
    rw [ChainRun.complete, ChainRun.start, advance]
    have none_running : transition.newlyReady.filter (· ∉ transition.newlyReady) = [] := by simp
    rw [none_running, Statuses.setAll_nil, ChainRun.settled, advance, recorded]
  have fresh (other : ℕ) (ready : other ∈ transition.newlyReady) :
      run.recorded index outcome other = some .pending ∧ other ∉ run.started := by
    rw [← advance] at ready
    exact (sound.ready_fresh member active ready).2
  have spared (other : ℕ) (waits : other ∈ ready ++ transition.newlyReady) :
      other ∉ transition.toCancel := by
    rw [← advance] at waits ⊢
    rcases List.mem_append.mp waits with old | new
    · intro dropped
      have failed := early (List.ne_nil_of_mem old)
      exact sound.cancel_fresh member active failed dropped ((follows.started other).mpr (.inr old))
    · exact sound.ready_apart member active new
  constructor
  · exact follows.scheduled.complete outcome _ member active
  · exact settled
  · intro other
    rw [ChainRun.complete, ChainRun.start, advance, List.mem_append, follows.started other,
      List.mem_append, or_assoc]
    rfl
  · refine follows.distinct.append ?_ fun other old new => ?_
    · exact newlyReady_nodup _ (covers_root.mpr (sound.inRange index member))
    · exact (fresh other new).2 ((follows.started other).mpr (.inr old))
  · intro other waits
    have idle : other ≠ index ∧ chain.leafJobs.get other = none ∧
        run.recorded index outcome other = some .pending := by
      rcases List.mem_append.mp waits with old | new
      · obtain ⟨idle, pending⟩ := follows.waiting other old
        have apart : other ≠ index := by
          rintro rfl
          simp [idle] at started
        exact ⟨apart, idle, (ChainRun.recorded_of_ne apart).trans pending⟩
      · obtain ⟨pending, absent⟩ := fresh other new
        refine ⟨fun same => absent (same ▸ member), ?_, pending⟩
        by_contra known
        exact absent ((follows.started other).mpr (.inl (Option.isSome_iff_ne_none.mpr known)))
    refine ⟨idle.2.1, ?_⟩
    rw [settled, Statuses.setAll, if_neg (spared other waits), ← recorded]
    exact idle.2.2
  · intro other dropped
    have covered : chain.node.Covers 0 index := covers_root.mpr (sound.inRange index member)
    exact .inl (toCancel_sound covered dropped).2

/-- A doomed leaf is cancelled. -/
theorem cancel (follows : chain.Follows (index :: doomed) ready run) :
    (chain.setLeaf index .cancelled).Follows doomed ready run where
  scheduled := follows.scheduled
  statuses := by
    rw [follows.statuses]
    funext other
    by_cases same : other = index
    · by_cases member : index ∈ doomed <;>
        simp [Statuses.setAll, same, member, ChainState.setLeaf_self]
    · simp [Statuses.setAll, same, ChainState.setLeaf_of_ne]
  started := follows.started
  distinct := follows.distinct
  waiting := follows.waiting
  open_ other member := by
    by_cases same : other = index
    · exact .inr (by rw [same, ChainState.setLeaf_self])
    · rw [Statuses.Terminal, ChainState.setLeaf_of_ne _ _ same]
      exact follows.open_ other (List.mem_cons_of_mem _ member)

/-- A doomed leaf that has ended was cancelled before. -/
theorem skip (follows : chain.Follows (index :: doomed) ready run)
    (ended : chain.leafStatus.Terminal index) : chain.Follows doomed ready run where
  scheduled := follows.scheduled
  statuses := by
    have cancelled := (follows.open_ index List.mem_cons_self).resolve_left (absurd ended)
    rw [follows.statuses]
    funext other
    by_cases same : other = index
    · by_cases member : index ∈ doomed <;> simp [Statuses.setAll, same, member, cancelled]
    · simp [Statuses.setAll, same]
  started := follows.started
  distinct := follows.distinct
  waiting := follows.waiting
  open_ other member := follows.open_ other (List.mem_cons_of_mem _ member)

/-- A leaf that waited for resources starts to run. -/
theorem resume (follows : chain.Follows doomed ready run)
    (started : (chain.leafJobs.get index).isSome) (pending : chain.leafStatus index = some .pending) :
    ∃ later, (chain.setLeaf index .running).Follows doomed ready later := by
  have apart {other : ℕ} (member : other ∈ ready) : other ≠ index := by
    rintro rfl
    simp [(follows.waiting other member).1] at started
  have open_ (other : ℕ) (member : other ∈ doomed) :
      ¬ (chain.setLeaf index .running).leafStatus.Terminal other ∨
        (chain.setLeaf index .running).leafStatus other = some .cancelled := by
    by_cases same : other = index
    · refine .inl ?_
      rw [Statuses.Terminal, same, ChainState.setLeaf_self]
      simp [LeafStatus.isTerminal]
    · rw [Statuses.Terminal, ChainState.setLeaf_of_ne _ _ same]
      exact follows.open_ other member
  by_cases dropped : index ∈ doomed
  · -- the run has cancelled the leaf already
    refine ⟨run, follows.scheduled, ?_, follows.started, follows.distinct, follows.waiting, open_⟩
    rw [follows.statuses]
    funext other
    by_cases same : other = index
    · simp [Statuses.setAll, same, dropped]
    · simp [Statuses.setAll, ChainState.setLeaf_of_ne _ _ same]
  · have waits : run.statuses index = some .pending := by
      rw [follows.statuses, Statuses.setAll, if_neg dropped]
      exact pending
    have member : index ∈ run.started := (follows.started index).mpr (.inl started)
    refine ⟨run.grant index, follows.scheduled.grant member waits, ?_, follows.started,
      follows.distinct, fun other ready => ?_, open_⟩
    · rw [ChainRun.grant, follows.statuses]
      funext other
      by_cases same : other = index
      · simp [Statuses.setAll, same, dropped, ChainState.setLeaf_self]
      · simp [Statuses.setAll, ChainState.setLeaf_of_ne _ _ same, same]
    · obtain ⟨idle, stays⟩ := follows.waiting other ready
      exact ⟨idle, (Function.update_of_ne (apart ready) ..).trans stays⟩

/-- The chain is going to be cancelled as a whole. -/
theorem cutOff (follows : chain.Follows [] [] run) :
    chain.CutOff ((flattenLeaves chain.node).map FlatLeaf.index) run where
  scheduled := follows.scheduled
  statuses index := .inl (by rw [follows.statuses, Statuses.setAll_nil])
  started index := by simp [follows.started index]
  inside index member := by
    rw [flattenLeaves_indices] at member
    exact List.mem_range.mp member
  ended index inside absent := by
    rw [flattenLeaves_indices] at absent
    exact absurd (List.mem_range.mpr inside) absent

end ChainState.Follows

namespace ChainState.CutOff

/-- A doomed leaf that has not ended, or that has not been started, is cancelled. -/
theorem cancel (cutOff : chain.CutOff (index :: doomed) run)
    (open_ : ¬ chain.leafStatus.Terminal index ∨ chain.leafJobs.get index = none) :
    (chain.setLeaf index .cancelled).CutOff doomed run where
  scheduled := cutOff.scheduled
  statuses other := by
    by_cases same : other = index
    · subst same
      have sound := cutOff.scheduled.sound
      have inside := cutOff.inside other List.mem_cons_self
      obtain ⟨status, stored⟩ := Option.isSome_iff_exists.mp ((sound.domain other).mpr inside)
      rw [ChainState.setLeaf_self]
      refine .inr ?_
      rcases open_ with unfinished | idle
      · have notEnded : ¬ status.isTerminal := by
          intro ended
          have same : chain.leafStatus other = some status := by
            rcases cutOff.statuses other with kept | cut
            · rw [kept, stored]
            · rw [cut, Statuses.cutOff, stored, Option.map_some, if_pos ended]
          exact unfinished (by rw [Statuses.Terminal, same]; exact ended)
        rw [Statuses.cutOff, stored, Option.map_some, if_neg notEnded]
      · have absent : other ∉ run.started := by simp [cutOff.started other, idle]
        rcases sound.waiting other absent inside with pending | cancelled
        · simp [Statuses.cutOff, pending, LeafStatus.isTerminal]
        · simp [Statuses.cutOff, cancelled, LeafStatus.isTerminal]
    · rw [ChainState.setLeaf_of_ne _ _ same]
      exact cutOff.statuses other
  started := cutOff.started
  inside other member := cutOff.inside other (List.mem_cons_of_mem _ member)
  ended other inside absent := by
    by_cases same : other = index
    · rw [Statuses.Terminal, same, ChainState.setLeaf_self]
      rfl
    · rw [Statuses.Terminal, ChainState.setLeaf_of_ne _ _ same]
      exact cutOff.ended other inside (by simp [same, absent])

theorem skip (cutOff : chain.CutOff (index :: doomed) run)
    (ended : chain.leafStatus.Terminal index) : chain.CutOff doomed run where
  scheduled := cutOff.scheduled
  statuses := cutOff.statuses
  started := cutOff.started
  inside other member := cutOff.inside other (List.mem_cons_of_mem _ member)
  ended other inside absent := by
    by_cases same : other = index
    · exact same ▸ ended
    · exact cutOff.ended other inside (by simp [same, absent])

/-- A leaf that waited for resources starts to run before its turn to be cancelled comes. -/
theorem resume (cutOff : chain.CutOff doomed run) (started : (chain.leafJobs.get index).isSome)
    (pending : chain.leafStatus index = some .pending) :
    ∃ later, (chain.setLeaf index .running).CutOff doomed later := by
  have waits : run.statuses index = some .pending := by
    rcases cutOff.statuses index with kept | cut
    · rw [← kept, pending]
    · rw [pending, Statuses.cutOff] at cut
      obtain ⟨status, -, same⟩ := Option.map_eq_some_iff.mp cut.symm
      split at same <;> simp_all [LeafStatus.isTerminal]
  refine ⟨run.grant index, cutOff.scheduled.grant ((cutOff.started index).mpr started) waits,
    fun other => ?_, cutOff.started, cutOff.inside, fun other inside absent => ?_⟩
  · by_cases same : other = index
    · refine .inl ?_
      rw [same, ChainState.setLeaf_self]
      exact (Function.update_self index (some .running) run.statuses).symm
    · have kept : (run.grant index).statuses other = run.statuses other :=
        Function.update_of_ne same ..
      rw [Statuses.cutOff, kept, ChainState.setLeaf_of_ne _ _ same]
      exact cutOff.statuses other
  · have apart : other ≠ index := by
      rintro rfl
      have past := cutOff.ended other inside absent
      simp [Statuses.Terminal, pending, LeafStatus.isTerminal] at past
    rw [Statuses.Terminal, ChainState.setLeaf_of_ne _ _ apart]
    exact cutOff.ended other inside absent

/-- The cancellation starts over. -/
theorem again (cutOff : chain.CutOff doomed run) :
    chain.CutOff ((flattenLeaves chain.node).map FlatLeaf.index) run where
  scheduled := cutOff.scheduled
  statuses := cutOff.statuses
  started := cutOff.started
  inside index member := by
    rw [flattenLeaves_indices] at member
    exact List.mem_range.mp member
  ended index inside absent := by
    rw [flattenLeaves_indices] at absent
    exact absurd (List.mem_range.mpr inside) absent

end ChainState.CutOff

namespace ChainState.OnCourse

theorem cancel (course : chain.OnCourse (index :: doomed) ready)
    (open_ : ¬ chain.leafStatus.Terminal index ∨ chain.leafJobs.get index = none) :
    (chain.setLeaf index .cancelled).OnCourse doomed ready := by
  cases course with
  | follows run follows => exact .follows run follows.cancel
  | cutOff run none cutOff => exact .cutOff run none (cutOff.cancel open_)

theorem skip (course : chain.OnCourse (index :: doomed) ready)
    (ended : chain.leafStatus.Terminal index) : chain.OnCourse doomed ready := by
  cases course with
  | follows run follows => exact .follows run (follows.skip ended)
  | cutOff run none cutOff => exact .cutOff run none (cutOff.skip ended)

theorem resume (course : chain.OnCourse doomed ready) (started : (chain.leafJobs.get index).isSome)
    (pending : chain.leafStatus index = some .pending) :
    (chain.setLeaf index .running).OnCourse doomed ready := by
  cases course with
  | follows run follows =>
    obtain ⟨later, reached⟩ := follows.resume started pending
    exact .follows later reached
  | cutOff run none cutOff =>
    obtain ⟨later, reached⟩ := cutOff.resume started pending
    exact .cutOff later none reached

theorem enter (course : chain.OnCourse [] (index :: ready)) :
    (chain.enter index jobId .running).OnCourse [] ready ∧ chain.leafJobs.get index = none := by
  cases course with
  | follows run follows =>
    exact ⟨.follows _ follows.enter, (follows.waiting index List.mem_cons_self).1⟩
  | cutOff run none => cases none

theorem park (course : chain.OnCourse [] (index :: ready)) :
    (chain.enter index jobId .pending).OnCourse [] ready ∧ chain.leafJobs.get index = none := by
  cases course with
  | follows run follows =>
    exact ⟨.follows _ follows.park, (follows.waiting index List.mem_cons_self).1⟩
  | cutOff run none => cases none

theorem begin (course : chain.OnCourse [] []) :
    chain.OnCourse ((flattenLeaves chain.node).map FlatLeaf.index) [] := by
  cases course with
  | follows run follows => exact .cutOff run rfl follows.cutOff
  | cutOff run none cutOff => exact .cutOff run none cutOff.again

/-- Only in the middle of a run can a leaf end on its own. -/
theorem finish (course : chain.OnCourse [] ready) (started : (chain.leafJobs.get index).isSome)
    (active : chain.leafStatus index = some .running ∨ chain.leafStatus index = some .pending)
    (outcome : LeafOutcome) (early : ready ≠ [] → outcome.status ≠ .done 0) :
    let later := chain.setLeaf index outcome.status
    let transition := advanceChain chain.node index later.leafStatus
    later.OnCourse transition.toCancel (ready ++ transition.newlyReady) := by
  cases course with
  | follows run follows => exact .follows _ (follows.finish started active outcome early)
  | cutOff run none cutOff =>
    have inside := cutOff.scheduled.sound.inRange index ((cutOff.started index).mpr started)
    have past := cutOff.ended index inside List.not_mem_nil
    rcases active with status | status <;>
      simp [Statuses.Terminal, status, LeafStatus.isTerminal] at past

/-- When every leaf has ended, the table is that of a run whose open leaves are cancelled. -/
theorem ended (course : chain.OnCourse [] []) (ended : chain.node.Ended 0 chain.leafStatus) :
    ∃ run, ChainRun.Scheduled chain.node run ∧ chain.leafStatus = run.statuses.cutOff ∧
      ∀ index, index ∈ run.started ↔ (chain.leafJobs.get index).isSome := by
  -- outside of the chain both tables are empty
  have final {run : ChainRun} (sound : run.Sound chain.node) (index : ℕ)
      (same : chain.leafStatus index = run.statuses index) :
      chain.leafStatus index = run.statuses.cutOff index := by
    by_cases inside : index < chain.node.leafCount
    · have past := ended index (covers_root.mpr inside)
      obtain ⟨status, stored⟩ := Option.isSome_iff_exists.mp ((sound.domain index).mpr inside)
      rw [Statuses.Terminal, same, stored, Option.any_some] at past
      rw [same, Statuses.cutOff, stored, Option.map_some, if_pos past]
    · have absent : run.statuses index = none := by
        by_contra present
        exact inside ((sound.domain index).mp (Option.isSome_iff_ne_none.mpr present))
      rw [same, Statuses.cutOff, absent]
      rfl
  cases course with
  | follows run follows =>
    have same : run.statuses = chain.leafStatus := by rw [follows.statuses, Statuses.setAll_nil]
    refine ⟨run, follows.scheduled, funext fun index => ?_, fun index => by simp [follows.started index]⟩
    exact final follows.scheduled.sound index (congrFun same.symm index)
  | cutOff run none cutOff =>
    refine ⟨run, cutOff.scheduled, funext fun index => ?_, cutOff.started⟩
    exact (cutOff.statuses index).elim (final cutOff.scheduled.sound index) id

/-- While a leaf has not ended, the chain is in the middle of a run. -/
theorem open_ (course : chain.OnCourse [] []) (unfinished : ¬ chain.node.Ended 0 chain.leafStatus) :
    ∃ run, ChainRun.Scheduled chain.node run ∧ run.statuses = chain.leafStatus ∧
      ∀ index, index ∈ run.started ↔ (chain.leafJobs.get index).isSome := by
  cases course with
  | follows run follows =>
    exact ⟨run, follows.scheduled, by rw [follows.statuses, Statuses.setAll_nil],
      fun index => by simp [follows.started index]⟩
  | cutOff run none cutOff =>
    refine absurd (fun index covered => ?_) unfinished
    exact cutOff.ended index (covers_root.mp covered) List.not_mem_nil

end ChainState.OnCourse

end Leaves

end CueShell
