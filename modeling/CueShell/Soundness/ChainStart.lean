import CueShell.Proofs.ChainRuns

/-! # Leaves are started once and in order

Every run of a chain starts a leaf at most once, and only when each serial node that has the leaf
in its right operand has seen its left operand end, with success in the case of `->`.
-/

namespace CueShell

variable {node : ChainNode} {run : ChainRun} {offset index : ℕ} {triggered : ℕ → Prop}
variable {statuses : Statuses}

/-- A serial ancestor that has the leaf in its right operand: its left operand and operator. -/
structure Prerequisite where
  operand : ChainNode
  offset : ℕ
  op : SerialOp
deriving DecidableEq, Repr

/-- The serial ancestors of a leaf that have it in their right operand, outermost first. -/
def ChainNode.prerequisites : ChainNode → ℕ → ℕ → List Prerequisite
  | .leaf _, _, _ => []
  | .serial left op right, offset, index =>
      if index < offset + left.leafCount then left.prerequisites offset index
      else ⟨left, offset, op⟩ :: right.prerequisites (offset + left.leafCount) index
  | .parallel left _ right, offset, index =>
      if index < offset + left.leafCount then left.prerequisites offset index
      else right.prerequisites (offset + left.leafCount) index

/-- The left operand has ended, with success if the operator is `->`. -/
def Prerequisite.Met (prerequisite : Prerequisite) (statuses : Statuses) : Prop :=
  prerequisite.operand.Ended prerequisite.offset statuses ∧
    (prerequisite.op = .andThen → prerequisite.operand.Won prerequisite.offset statuses)

/-- Every prerequisite of the leaf at `index` is met. -/
def ChainNode.Cleared (node : ChainNode) (index : ℕ) (statuses : Statuses) : Prop :=
  ∀ prerequisite ∈ node.prerequisites 0 index, prerequisite.Met statuses

/-- The invariant of runs says that the prerequisites of a triggered leaf are met. -/
theorem Guarded.prerequisites_met (guarded : Guarded triggered node offset statuses)
    (covered : node.Covers offset index) (fired : triggered index) :
    ∀ prerequisite ∈ node.prerequisites offset index, prerequisite.Met statuses := by
  induction covered using ChainNode.Covers.path_induction with
  | leaf plan => simp [ChainNode.prerequisites]
  | serialLeft left op right offset covered _ ih =>
    rw [ChainNode.prerequisites, if_pos covered.2]
    exact ih guarded.1
  | serialRight left op right offset covered _ ih =>
    rw [ChainNode.prerequisites, if_neg (not_lt_of_ge covered.1)]
    exact List.forall_mem_cons.mpr ⟨guarded.2.2 ⟨index, covered, fired⟩, ih guarded.2.1⟩
  | parallelLeft left op right offset covered _ ih =>
    rw [ChainNode.prerequisites, if_pos covered.2]
    exact ih guarded.1
  | parallelRight left op right offset covered _ ih =>
    rw [ChainNode.prerequisites, if_neg (not_lt_of_ge covered.1)]
    exact ih guarded.2.1

/-- The entries of a subtree have no prerequisites inside it. -/
theorem prerequisites_of_entry (entry : index ∈ node.entries offset) :
    node.prerequisites offset index = [] := by
  induction node generalizing offset with
  | leaf plan => rfl
  | serial left op right ihl ihr =>
    have inLeft : index ∈ left.entries offset := entry
    rw [ChainNode.prerequisites, if_pos (entries_covered inLeft).2]
    exact ihl inLeft
  | parallel left op right ihl ihr =>
    rw [ChainNode.prerequisites]
    rcases List.mem_append.mp entry with inLeft | inRight
    · rw [if_pos (entries_covered inLeft).2]
      exact ihl inLeft
    · rw [if_neg (not_lt_of_ge (entries_covered inRight).1)]
      exact ihr inRight

namespace ChainRun

theorem Sound.started_cleared (sound : Sound node run) (member : index ∈ run.started) :
    node.Cleared index run.statuses :=
  sound.guarded.prerequisites_met (covers_root.mpr (sound.inRange index member)) member

/-- What one advancement may ask for in a given run state. -/
structure SafeAdvance (node : ChainNode) (run : ChainRun) (finished : ℕ) (outcome : LeafOutcome) :
    Prop where
  ready_nodup : (run.advance node finished outcome).newlyReady.Nodup
  cancel_nodup : (run.advance node finished outcome).toCancel.Nodup
  disjoint : (run.advance node finished outcome).newlyReady.Disjoint
    (run.advance node finished outcome).toCancel
  ready : ∀ index ∈ (run.advance node finished outcome).newlyReady,
    index < node.leafCount ∧ run.recorded finished outcome index = some .pending ∧
      index ∉ run.started ∧ node.Cleared index (run.settled node finished outcome)
  cancel : ∀ index ∈ (run.advance node finished outcome).toCancel,
    index < node.leafCount ∧
      ∃ status, run.recorded finished outcome index = some status ∧ status.isTerminal = false

theorem Sound.safeAdvance {finished : ℕ} (sound : Sound node run) (member : finished ∈ run.started)
    (active : run.statuses finished = some .running ∨ run.statuses finished = some .pending)
    (outcome : LeafOutcome) : SafeAdvance node run finished outcome := by
  have covered : node.Covers 0 finished := covers_root.mpr (sound.inRange finished member)
  refine ⟨newlyReady_nodup _ covered, toCancel_nodup covered (sound.contested member active outcome),
    fun index ready => sound.ready_apart member active ready, fun index ready => ?_,
    fun index dropped => ?_⟩
  · obtain ⟨inChain, pending, fresh⟩ := sound.ready_fresh member active ready
    refine ⟨inChain, pending, fresh, ?_⟩
    exact (sound.kept member active outcome).prerequisites_met (covers_root.mpr inChain) (.inr ready)
  · obtain ⟨inside, unfinished⟩ := toCancel_sound covered dropped
    have inChain := covers_root.mp inside
    obtain ⟨status, present⟩ :=
      Option.isSome_iff_exists.mp ((sound.recorded_domain member outcome index).mpr inChain)
    refine ⟨inChain, status, present, ?_⟩
    simpa [Statuses.Terminal, present] using unfinished

/-- Leaves are started at most once and in order; every advancement asks only for what is safe. -/
theorem start_safety (scheduled : Scheduled node run) :
    run.started.Nodup ∧
    (∀ index ∈ run.started, index < node.leafCount ∧ node.Cleared index run.statuses) ∧
    ((initiallyReady node).Nodup ∧ ∀ index ∈ initiallyReady node,
      index < node.leafCount ∧ node.prerequisites 0 index = []) ∧
    ∀ finished outcome, finished ∈ run.started →
      run.statuses finished = some .running ∨ run.statuses finished = some .pending →
      SafeAdvance node run finished outcome := by
  have sound := scheduled.sound
  refine ⟨sound.nodup,
    fun index member => ⟨sound.inRange index member, sound.started_cleared member⟩, ?_,
    fun finished outcome member active => sound.safeAdvance member active outcome⟩
  rw [initiallyReady_eq]
  exact ⟨entries_nodup node 0, fun index entry =>
    ⟨covers_root.mp (entries_covered entry), prerequisites_of_entry entry⟩⟩

/-- Three leaves `a -> b ||| c`, before any of them has ended. -/
theorem start_safety_fanout :
    let leaf name := ChainNode.leaf (.simple [name])
    let node := ChainNode.serial (leaf "a") .andThen (.parallel (leaf "b") .all (leaf "c"))
    (launch node []).started.Nodup ∧ SafeAdvance node (launch node []) 0 (.exited 0) := by
  intro leaf node
  have safe := start_safety (Scheduled.launch [] : Scheduled node _)
  exact ⟨safe.1, safe.2.2.2 0 (.exited 0) (by decide) (.inl (by decide))⟩

end ChainRun

end CueShell
