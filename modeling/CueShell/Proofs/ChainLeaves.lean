import CueShell.Model.Chain
import Mathlib.Data.List.Nodup
import Mathlib.Data.List.Range

/-! # Chain traversals as statements about leaf positions

A subtree placed at `offset` covers a block of consecutive positions. Every traversal of the source
is expressed over that block: the Boolean scans are bounded quantifiers, and the accumulating
traversals append a filtered block to the transition they are given.
-/

namespace CueShell

variable {statuses : Statuses} {node left right : ChainNode} {offset index finished : ℕ}

/-- Position `index` belongs to the subtree `node` placed at `offset`. -/
def ChainNode.Covers (node : ChainNode) (offset index : ℕ) : Prop :=
  offset ≤ index ∧ index < offset + node.leafCount

instance (node : ChainNode) (offset index : ℕ) : Decidable (node.Covers offset index) :=
  inferInstanceAs (Decidable (_ ∧ _))

/-- The leaf at `index` has reached a final status. -/
def Statuses.Terminal (statuses : Statuses) (index : ℕ) : Prop :=
  (statuses index).any LeafStatus.isTerminal = true

/-- The leaf at `index` has ended with exit code zero. -/
def Statuses.Succeeded (statuses : Statuses) (index : ℕ) : Prop :=
  statuses index = some (.done 0)

instance (statuses : Statuses) (index : ℕ) : Decidable (statuses.Terminal index) :=
  inferInstanceAs (Decidable (_ = _))

instance (statuses : Statuses) (index : ℕ) : Decidable (statuses.Succeeded index) :=
  inferInstanceAs (Decidable (_ = _))

theorem Statuses.Succeeded.terminal (succeeded : statuses.Succeeded index) :
    statuses.Terminal index := by
  simp [Statuses.Terminal, show statuses index = _ from succeeded, LeafStatus.isTerminal]

/-- A block of positions is terminal, or succeeded, when each of its leaves is. -/
def ChainNode.Ended (node : ChainNode) (offset : ℕ) (statuses : Statuses) : Prop :=
  ∀ index, node.Covers offset index → statuses.Terminal index

def ChainNode.Won (node : ChainNode) (offset : ℕ) (statuses : Statuses) : Prop :=
  ∀ index, node.Covers offset index → statuses.Succeeded index

theorem ChainNode.Won.ended (won : node.Won offset statuses) : node.Ended offset statuses :=
  fun index covered => (won index covered).terminal

theorem ChainNode.covers_first (node : ChainNode) (offset : ℕ) : node.Covers offset offset :=
  ⟨le_rfl, by have := node.leafCount_pos; omega⟩

@[simp] theorem covers_leaf {plan : JobPlan} :
    (ChainNode.leaf plan).Covers offset index ↔ index = offset := by
  simp only [ChainNode.Covers, ChainNode.leafCount]
  omega

theorem covers_serial {op : SerialOp} : (ChainNode.serial left op right).Covers offset index ↔
    left.Covers offset index ∨ right.Covers (offset + left.leafCount) index := by
  simp only [ChainNode.Covers, ChainNode.leafCount]
  omega

theorem covers_parallel {op : ParallelOp} :
    (ChainNode.parallel left op right).Covers offset index ↔
      left.Covers offset index ∨ right.Covers (offset + left.leafCount) index := by
  simp only [ChainNode.Covers, ChainNode.leafCount]
  omega

/-- The two operands of a node cover disjoint blocks. -/
theorem ChainNode.Covers.not_right (covered : left.Covers offset index) :
    ¬ right.Covers (offset + left.leafCount) index := by
  simp only [ChainNode.Covers] at covered ⊢
  omega

theorem ended_serial {op : SerialOp} : (ChainNode.serial left op right).Ended offset statuses ↔
    left.Ended offset statuses ∧ right.Ended (offset + left.leafCount) statuses := by
  simp only [ChainNode.Ended, covers_serial, or_imp, forall_and]

theorem ended_parallel {op : ParallelOp} :
    (ChainNode.parallel left op right).Ended offset statuses ↔
      left.Ended offset statuses ∧ right.Ended (offset + left.leafCount) statuses := by
  simp only [ChainNode.Ended, covers_parallel, or_imp, forall_and]

theorem won_serial {op : SerialOp} : (ChainNode.serial left op right).Won offset statuses ↔
    left.Won offset statuses ∧ right.Won (offset + left.leafCount) statuses := by
  simp only [ChainNode.Won, covers_serial, or_imp, forall_and]

theorem won_parallel {op : ParallelOp} :
    (ChainNode.parallel left op right).Won offset statuses ↔
      left.Won offset statuses ∧ right.Won (offset + left.leafCount) statuses := by
  simp only [ChainNode.Won, covers_parallel, or_imp, forall_and]

@[simp] theorem allLeavesTerminal_iff :
    allLeavesTerminal node offset statuses = true ↔ node.Ended offset statuses := by
  induction node generalizing offset with
  | leaf plan => simp [allLeavesTerminal, ChainNode.Ended, Statuses.Terminal]
  | serial left op right ihl ihr => simp [allLeavesTerminal, ended_serial, ihl, ihr]
  | parallel left op right ihl ihr => simp [allLeavesTerminal, ended_parallel, ihl, ihr]

@[simp] theorem allLeavesSucceeded_iff :
    allLeavesSucceeded node offset statuses = true ↔ node.Won offset statuses := by
  induction node generalizing offset with
  | leaf plan => simp [allLeavesSucceeded, ChainNode.Won, Statuses.Succeeded]
  | serial left op right ihl ihr => simp [allLeavesSucceeded, won_serial, ihl, ihr]
  | parallel left op right ihl ihr => simp [allLeavesSucceeded, won_parallel, ihl, ihr]

@[simp] theorem allLeavesTerminal_eq_false :
    allLeavesTerminal node offset statuses = false ↔ ¬ node.Ended offset statuses := by
  rw [← allLeavesTerminal_iff, Bool.not_eq_true]

@[simp] theorem allLeavesSucceeded_eq_false :
    allLeavesSucceeded node offset statuses = false ↔ ¬ node.Won offset statuses := by
  rw [← allLeavesSucceeded_iff, Bool.not_eq_true]

/-- The positions of a subtree, in order. -/
def ChainNode.block (node : ChainNode) (offset : ℕ) : List ℕ := List.range' offset node.leafCount

@[simp] theorem mem_block : index ∈ node.block offset ↔ node.Covers offset index := by
  simp [ChainNode.block, ChainNode.Covers, List.mem_range'_1]

theorem block_nodup (node : ChainNode) (offset : ℕ) : (node.block offset).Nodup :=
  List.nodup_range'

theorem block_append (left right : ChainNode) (offset : ℕ) :
    left.block offset ++ right.block (offset + left.leafCount) =
      List.range' offset (left.leafCount + right.leafCount) := by
  simp [ChainNode.block, List.range'_append_1]

/-- A race tests its sides by position range; the test is the subtree's own success. -/
theorem allIndicesSucceeded_block :
    allIndicesSucceeded (node.block offset) statuses = true ↔ node.Won offset statuses := by
  simp [allIndicesSucceeded, ChainNode.Won, Statuses.Succeeded]

/-- The leaves of a subtree that wait for no serial predecessor inside it. -/
def ChainNode.entries : ChainNode → ℕ → List ℕ
  | .leaf _, offset => [offset]
  | .serial left _ _, offset => left.entries offset
  | .parallel left _ right, offset => left.entries offset ++ right.entries (offset + left.leafCount)

theorem flattenLeavesInner_indices (node : ChainNode) (out : List FlatLeaf) :
    (flattenLeavesInner node out).map FlatLeaf.index =
      out.map FlatLeaf.index ++ List.range' out.length node.leafCount := by
  induction node generalizing out with
  | leaf plan => simp [flattenLeavesInner, ChainNode.leafCount]
  | serial left op right ihl ihr | parallel left op right ihl ihr =>
    have length := congrArg List.length (ihl out)
    simp only [List.length_map, List.length_append, List.length_range'] at length
    rw [flattenLeavesInner, ihr, ihl, length, List.append_assoc, ChainNode.leafCount,
      List.range'_append_1]

/-- The leaves are numbered in their order. -/
theorem flattenLeaves_indices (node : ChainNode) :
    (flattenLeaves node).map FlatLeaf.index = List.range node.leafCount := by
  rw [flattenLeaves, flattenLeavesInner_indices, List.range_eq_range']
  rfl

theorem flattenLeaves_length (node : ChainNode) : (flattenLeaves node).length = node.leafCount := by
  have length := congrArg List.length (flattenLeaves_indices node)
  rwa [List.length_map, List.length_range] at length

theorem initiallyReadyInner_eq (node : ChainNode) (offset : ℕ) (ready : List ℕ) :
    initiallyReadyInner node offset ready = ready ++ node.entries offset := by
  induction node generalizing offset ready with
  | leaf plan => rfl
  | serial left op right ihl ihr => exact ihl offset ready
  | parallel left op right ihl ihr =>
    simp only [initiallyReadyInner, ihl, ihr, ChainNode.entries, List.append_assoc]

theorem initiallyReady_eq (node : ChainNode) : initiallyReady node = node.entries 0 := by
  simp [initiallyReady, initiallyReadyInner_eq]

theorem entries_covered : index ∈ node.entries offset → node.Covers offset index := by
  induction node generalizing offset with
  | leaf plan => simp [ChainNode.entries]
  | serial left op right ihl ihr => exact fun member => covers_serial.mpr (.inl (ihl member))
  | parallel left op right ihl ihr =>
    intro member
    exact covers_parallel.mpr ((List.mem_append.mp member).imp ihl ihr)

theorem entries_nodup (node : ChainNode) (offset : ℕ) : (node.entries offset).Nodup := by
  induction node generalizing offset with
  | leaf plan => exact List.nodup_singleton _
  | serial left op right ihl ihr => exact ihl offset
  | parallel left op right ihl ihr =>
    refine (ihl offset).append (ihr _) ?_
    intro index inLeft inRight
    exact (entries_covered inLeft).not_right (entries_covered inRight)

theorem entries_ne_nil (node : ChainNode) (offset : ℕ) : node.entries offset ≠ [] := by
  induction node generalizing offset with
  | leaf plan => exact List.cons_ne_nil _ _
  | serial left op right ihl ihr => exact ihl offset
  | parallel left op right ihl ihr => exact List.append_ne_nil_of_left_ne_nil (ihl offset) _

namespace ChainTransition

/-- Transitions compose by appending what they ask for. -/
instance : Append ChainTransition :=
  ⟨fun first second => ⟨first.newlyReady ++ second.newlyReady, first.toCancel ++ second.toCancel⟩⟩

@[simp] theorem newlyReady_append (first second : ChainTransition) :
    (first ++ second).newlyReady = first.newlyReady ++ second.newlyReady := rfl

@[simp] theorem toCancel_append (first second : ChainTransition) :
    (first ++ second).toCancel = first.toCancel ++ second.toCancel := rfl

theorem append_assoc (first second third : ChainTransition) :
    first ++ second ++ third = first ++ (second ++ third) :=
  ChainTransition.ext (List.append_assoc ..) (List.append_assoc ..)

@[simp] theorem append_empty (transition : ChainTransition) : transition ++ {} = transition :=
  ChainTransition.ext (List.append_nil _) (List.append_nil _)

@[simp] theorem empty_append (transition : ChainTransition) : {} ++ transition = transition := rfl

end ChainTransition

theorem markReady_eq (node : ChainNode) (offset : ℕ) (statuses : Statuses)
    (transition : ChainTransition) : markReady node offset statuses transition =
      transition ++ ⟨(node.entries offset).filter (untouched statuses), []⟩ := by
  induction node generalizing offset transition with
  | leaf plan =>
    simp only [markReady, ChainNode.entries, List.filter_cons, List.filter_nil]
    split
    · exact ChainTransition.ext rfl (List.append_nil _).symm
    · exact (ChainTransition.append_empty transition).symm
  | serial left op right ihl ihr => exact ihl offset transition
  | parallel left op right ihl ihr =>
    simp only [markReady, ihl, ihr, ChainNode.entries, List.filter_append,
      ChainTransition.append_assoc]
    rfl

theorem markCancelled_eq (node : ChainNode) (offset : ℕ) (statuses : Statuses)
    (transition : ChainTransition) : markCancelled node offset statuses transition =
      transition ++ ⟨[], (node.block offset).filter (untouched statuses)⟩ := by
  induction node generalizing offset transition with
  | leaf plan =>
    simp only [markCancelled, ChainNode.block, ChainNode.leafCount, List.range'_one,
      List.filter_cons, List.filter_nil]
    split
    · exact ChainTransition.ext (List.append_nil _).symm rfl
    · exact (ChainTransition.append_empty transition).symm
  | serial left op right ihl ihr =>
    simp only [markCancelled, ihl, ihr, ChainTransition.append_assoc]
    simp only [ChainNode.block, ChainNode.leafCount, ← List.range'_append_1, List.filter_append]
    rfl
  | parallel left op right ihl ihr =>
    simp only [markCancelled, ihl, ihr, ChainTransition.append_assoc]
    simp only [ChainNode.block, ChainNode.leafCount, ← List.range'_append_1, List.filter_append]
    rfl

/-- A leaf the losing side of a race still has to stop. -/
def Statuses.open (statuses : Statuses) (index : ℕ) : Bool :=
  !(statuses index).all LeafStatus.isTerminal

theorem cancelRange_eq (indices : List ℕ) (statuses : Statuses) (transition : ChainTransition) :
    cancelRange indices statuses transition = transition ++ ⟨[], indices.filter statuses.open⟩ := by
  induction indices generalizing transition with
  | nil => exact (ChainTransition.append_empty transition).symm
  | cons head rest ih =>
    simp only [cancelRange, List.foldl_cons] at ih ⊢
    rw [ih, List.filter_cons]
    by_cases ended : (statuses head).all LeafStatus.isTerminal
    · simp [ended, Statuses.open]
    · rw [if_neg ended, if_pos (by simpa [Statuses.open] using ended)]
      exact ChainTransition.ext rfl (by simp [ChainTransition.pushCancel])

end CueShell
