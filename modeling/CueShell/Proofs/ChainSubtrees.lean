import CueShell.Proofs.ChainInvariant

/-! # Subtrees of a chain

The invariant passes to every subtree, and inside a subtree that contains the finished leaf an
advancement of the whole chain asks for exactly what the advancement of the subtree asks for.
-/

namespace CueShell

variable {node sub : ChainNode} {offset subOffset index finished : ℕ}
variable {statuses : Statuses} {triggered : ℕ → Prop}

/-- The subtree `sub`, at its own offset, occurs in `node`. -/
inductive ChainNode.Within (sub : ChainNode) (subOffset : ℕ) : ChainNode → ℕ → Prop
  | here : sub.Within subOffset sub subOffset
  | serialLeft {left op right offset} :
      sub.Within subOffset left offset → sub.Within subOffset (.serial left op right) offset
  | serialRight {left op right offset} :
      sub.Within subOffset right (offset + left.leafCount) →
        sub.Within subOffset (.serial left op right) offset
  | parallelLeft {left op right offset} :
      sub.Within subOffset left offset → sub.Within subOffset (.parallel left op right) offset
  | parallelRight {left op right offset} :
      sub.Within subOffset right (offset + left.leafCount) →
        sub.Within subOffset (.parallel left op right) offset

theorem ChainNode.Within.covers (within : sub.Within subOffset node offset)
    (covered : sub.Covers subOffset index) : node.Covers offset index := by
  induction within with
  | here => exact covered
  | serialLeft _ ih => exact covers_serial.mpr (.inl ih)
  | serialRight _ ih => exact covers_serial.mpr (.inr ih)
  | parallelLeft _ ih => exact covers_parallel.mpr (.inl ih)
  | parallelRight _ ih => exact covers_parallel.mpr (.inr ih)

theorem Contested.within (within : sub.Within subOffset node offset)
    (covered : sub.Covers subOffset finished) (contested : Contested node offset finished statuses) :
    Contested sub subOffset finished statuses := by
  induction within with
  | here => exact contested
  | serialLeft deeper ih =>
    rw [Contested, if_pos (deeper.covers covered).2] at contested
    exact ih contested
  | serialRight deeper ih =>
    rw [Contested, if_neg (not_lt_of_ge (deeper.covers covered).1)] at contested
    exact ih contested
  | parallelLeft deeper ih =>
    rw [Contested, if_pos (deeper.covers covered).2] at contested
    exact ih contested.2
  | parallelRight deeper ih =>
    rw [Contested, if_neg (not_lt_of_ge (deeper.covers covered).1)] at contested
    exact ih contested.2

theorem Guarded.within (within : sub.Within subOffset node offset)
    (guarded : Guarded triggered node offset statuses) :
    Guarded triggered sub subOffset statuses := by
  induction within with
  | here => exact guarded
  | serialLeft _ ih => exact ih guarded.1
  | serialRight _ ih => exact ih guarded.2.1
  | parallelLeft _ ih => exact ih guarded.1
  | parallelRight _ ih => exact ih guarded.2.1

/-- Inside a subtree with the finished leaf, an advancement starts what the subtree's own does. -/
theorem newlyReady_within (within : sub.Within subOffset node offset)
    (covered : sub.Covers subOffset finished) (inside : sub.Covers subOffset index)
    (ready : index ∈ (node.advanced offset finished statuses).newlyReady) :
    index ∈ (sub.advanced subOffset finished statuses).newlyReady := by
  induction within with
  | here => exact ready
  | serialLeft deeper ih =>
    rw [advanced_serial_left (deeper.covers covered)] at ready
    refine ih ((List.mem_append.mp ready).resolve_right fun released => ?_)
    exact (deeper.covers inside).not_right (entries_covered (mem_follow_newlyReady.mp released).2.2.1)
  | serialRight deeper ih =>
    rw [advanced_serial_right (deeper.covers covered)] at ready
    exact ih ready
  | parallelLeft deeper ih =>
    rw [advanced_parallel_left (deeper.covers covered), ChainTransition.newlyReady_append,
      verdict_newlyReady, List.append_nil] at ready
    exact ih ready
  | parallelRight deeper ih =>
    rw [advanced_parallel_right (deeper.covers covered), ChainTransition.newlyReady_append,
      verdict_newlyReady, List.append_nil] at ready
    exact ih ready

/-- Inside a subtree with the finished leaf, an advancement cancels what the subtree's own does. -/
theorem toCancel_within (within : sub.Within subOffset node offset)
    (covered : sub.Covers subOffset finished) (inside : sub.Covers subOffset index)
    (contested : Contested node offset finished statuses) :
    index ∈ (node.advanced offset finished statuses).toCancel ↔
      index ∈ (sub.advanced subOffset finished statuses).toCancel := by
  induction within with
  | here => exact Iff.rfl
  | serialLeft deeper ih =>
    rw [Contested, if_pos (deeper.covers covered).2] at contested
    rw [advanced_serial_left (deeper.covers covered), ← ih contested,
      ChainTransition.toCancel_append, List.mem_append]
    refine or_iff_left fun aborted => ?_
    exact (deeper.covers inside).not_right (mem_follow_toCancel.mp aborted).2.2.1
  | serialRight deeper ih =>
    rw [Contested, if_neg (not_lt_of_ge (deeper.covers covered).1)] at contested
    rw [advanced_serial_right (deeper.covers covered)]
    exact ih contested
  | parallelLeft deeper ih =>
    rw [Contested, if_pos (deeper.covers covered).2] at contested
    rw [advanced_parallel_left (deeper.covers covered), ← ih contested.2,
      ChainTransition.toCancel_append, List.mem_append]
    refine or_iff_left fun outrun => ?_
    exact (deeper.covers inside).not_right (verdict_right_of_contested contested.1 outrun).2
  | parallelRight deeper ih =>
    rw [Contested, if_neg (not_lt_of_ge (deeper.covers covered).1)] at contested
    rw [advanced_parallel_right (deeper.covers covered), ← ih contested.2,
      ChainTransition.toCancel_append, List.mem_append]
    refine or_iff_left fun outrun => ?_
    exact (verdict_left_of_contested contested.1 outrun).2.not_right (deeper.covers inside)

end CueShell
