import CueShell.Model.ChainRun
import CueShell.Proofs.ChainLeaves

/-! # What one advancement does along the path to the finished leaf

`advanceInner` walks from the root to the finished leaf. Each serial node on the way whose left
operand contains that leaf may release or drop its right operand; each race on the way may drop one
side. The equations below state this node by node, and the invariant `Guarded` records what the
earlier steps of a run guarantee about the nodes of the tree.
-/

namespace CueShell

variable {statuses : Statuses} {node left right : ChainNode} {offset index finished : ℕ}

/-- Induction along the path from a subtree to one of its leaves. -/
@[elab_as_elim]
theorem ChainNode.Covers.path_induction {finished : ℕ}
    {motive : (node : ChainNode) → (offset : ℕ) → node.Covers offset finished → Prop}
    (leaf : ∀ plan covered, motive (.leaf plan) finished covered)
    (serialLeft : ∀ left op right offset (covered : left.Covers offset finished) whole,
      motive left offset covered → motive (.serial left op right) offset whole)
    (serialRight : ∀ left op right offset
      (covered : right.Covers (offset + left.leafCount) finished) whole,
      motive right (offset + left.leafCount) covered → motive (.serial left op right) offset whole)
    (parallelLeft : ∀ left op right offset (covered : left.Covers offset finished) whole,
      motive left offset covered → motive (.parallel left op right) offset whole)
    (parallelRight : ∀ left op right offset
      (covered : right.Covers (offset + left.leafCount) finished) whole,
      motive right (offset + left.leafCount) covered → motive (.parallel left op right) offset whole)
    {node : ChainNode} {offset : ℕ} (covered : node.Covers offset finished) :
    motive node offset covered := by
  induction node generalizing offset with
  | leaf plan =>
    obtain rfl := covers_leaf.mp covered
    exact leaf plan covered
  | serial left op right ihl ihr =>
    rcases covers_serial.mp covered with inLeft | inRight
    · exact serialLeft _ _ _ _ inLeft covered (ihl inLeft)
    · exact serialRight _ _ _ _ inRight covered (ihr inRight)
  | parallel left op right ihl ihr =>
    rcases covers_parallel.mp covered with inLeft | inRight
    · exact parallelLeft _ _ _ _ inLeft covered (ihl inLeft)
    · exact parallelRight _ _ _ _ inRight covered (ihr inRight)

/-- What a serial node asks for once its left operand has ended. -/
def ChainNode.follow (left : ChainNode) (op : SerialOp) (right : ChainNode) (offset : ℕ)
    (statuses : Statuses) : ChainTransition :=
  let released : ChainTransition :=
    ⟨(right.entries (offset + left.leafCount)).filter (untouched statuses), []⟩
  let dropped : ChainTransition :=
    ⟨[], (right.block (offset + left.leafCount)).filter (untouched statuses)⟩
  if allLeavesTerminal left offset statuses then
    if op = .always ∨ allLeavesSucceeded left offset statuses then released else dropped
  else {}

/-- What a race asks for once one of its sides has succeeded. -/
def ChainNode.outrun (left right : ChainNode) (offset : ℕ) (statuses : Statuses) :
    ChainTransition :=
  if allLeavesSucceeded left offset statuses then
    ⟨[], (right.block (offset + left.leafCount)).filter statuses.open⟩
  else if allLeavesSucceeded right (offset + left.leafCount) statuses then
    ⟨[], (left.block offset).filter statuses.open⟩
  else {}

/-- The transition of a subtree on its own. -/
def ChainNode.advanced (node : ChainNode) (offset finished : ℕ) (statuses : Statuses) :
    ChainTransition :=
  advanceInner node offset finished statuses {}

theorem advanceInner_serial_left {op : SerialOp} (covered : left.Covers offset finished)
    (transition : ChainTransition) :
    advanceInner (.serial left op right) offset finished statuses transition =
      advanceInner left offset finished statuses transition ++
        left.follow op right offset statuses := by
  have inLeft : offset ≤ finished ∧ finished < offset + left.leafCount := covered
  rw [advanceInner]
  simp only [if_pos inLeft, ChainNode.follow, markReady_eq, markCancelled_eq]
  by_cases ended : allLeavesTerminal left offset statuses
  · cases op with
    | andThen =>
      simp only [if_pos ended, reduceCtorEq, false_or]
      split <;> rfl
    | always => simp only [if_pos ended, true_or, if_true]
  · simp only [if_neg ended, ChainTransition.append_empty]

theorem advanceInner_serial_right {op : SerialOp}
    (covered : right.Covers (offset + left.leafCount) finished) (transition : ChainTransition) :
    advanceInner (.serial left op right) offset finished statuses transition =
      advanceInner right (offset + left.leafCount) finished statuses transition := by
  have notLeft : ¬ (offset ≤ finished ∧ finished < offset + left.leafCount) := by
    have := covered.1
    omega
  rw [advanceInner]
  simp only [if_neg notLeft]

theorem advanceInner_all (transition : ChainTransition) :
    advanceInner (.parallel left .all right) offset finished statuses transition =
      if finished < offset + left.leafCount then
        advanceInner left offset finished statuses transition
      else advanceInner right (offset + left.leafCount) finished statuses transition := by
  rw [advanceInner]

theorem advanceInner_race (transition : ChainTransition) :
    advanceInner (.parallel left .race right) offset finished statuses transition =
      (if finished < offset + left.leafCount then
        advanceInner left offset finished statuses transition
      else advanceInner right (offset + left.leafCount) finished statuses transition) ++
        left.outrun right offset statuses := by
  have sideLeft : allIndicesSucceeded (List.range' offset left.leafCount) statuses =
      allLeavesSucceeded left offset statuses :=
    Bool.eq_iff_iff.mpr (allIndicesSucceeded_block.trans allLeavesSucceeded_iff.symm)
  have sideRight :
      allIndicesSucceeded (List.range' (offset + left.leafCount) right.leafCount) statuses =
        allLeavesSucceeded right (offset + left.leafCount) statuses :=
    Bool.eq_iff_iff.mpr (allIndicesSucceeded_block.trans allLeavesSucceeded_iff.symm)
  rw [advanceInner]
  simp only [sideLeft, sideRight, ChainNode.outrun, cancelRange_eq]
  cases allLeavesSucceeded left offset statuses <;>
    cases allLeavesSucceeded right (offset + left.leafCount) statuses <;>
    simp [ChainNode.block]

theorem advanced_leaf (plan : JobPlan) (offset finished : ℕ) (statuses : Statuses) :
    (ChainNode.leaf plan).advanced offset finished statuses = {} := rfl

theorem advanced_serial_left {op : SerialOp} (covered : left.Covers offset finished) :
    (ChainNode.serial left op right).advanced offset finished statuses =
      left.advanced offset finished statuses ++ left.follow op right offset statuses :=
  advanceInner_serial_left covered _

theorem advanced_serial_right {op : SerialOp}
    (covered : right.Covers (offset + left.leafCount) finished) :
    (ChainNode.serial left op right).advanced offset finished statuses =
      right.advanced (offset + left.leafCount) finished statuses :=
  advanceInner_serial_right covered _

/-- What a parallel node adds to the transition of the operand that contains the finished leaf. -/
def ChainNode.verdict (left : ChainNode) (op : ParallelOp) (right : ChainNode) (offset : ℕ)
    (statuses : Statuses) : ChainTransition :=
  if op = .race then left.outrun right offset statuses else {}

theorem advanced_parallel_left {op : ParallelOp} (covered : left.Covers offset finished) :
    (ChainNode.parallel left op right).advanced offset finished statuses =
      left.advanced offset finished statuses ++ left.verdict op right offset statuses := by
  cases op with
  | all => simp [ChainNode.advanced, advanceInner_all, if_pos covered.2, ChainNode.verdict]
  | race => simp [ChainNode.advanced, advanceInner_race, if_pos covered.2, ChainNode.verdict]

theorem advanced_parallel_right {op : ParallelOp}
    (covered : right.Covers (offset + left.leafCount) finished) :
    (ChainNode.parallel left op right).advanced offset finished statuses =
      right.advanced (offset + left.leafCount) finished statuses ++
        left.verdict op right offset statuses := by
  have notLeft := not_lt_of_ge covered.1
  cases op with
  | all => simp [ChainNode.advanced, advanceInner_all, if_neg notLeft, ChainNode.verdict]
  | race => simp [ChainNode.advanced, advanceInner_race, if_neg notLeft, ChainNode.verdict]

end CueShell
