import CueShell.Model.Job
import CueShell.Model.Pipeline

/-! # Chain advancement

Leaves are addressed by their left-to-right position; every recursion carries the position of its
first leaf. A status table is a partial map from positions to leaf statuses. All functions thread
the transition under construction exactly as the source does, so the order of its entries is the
order in which the source pushes them.
-/

namespace CueShell

/-- Execution status of one leaf. -/
inductive LeafStatus where
  | pending
  | running
  | done (code : ℤ)
  | failed (code : ℤ)
  | cancelled
deriving DecidableEq, Repr

def LeafStatus.isTerminal : LeafStatus → Bool
  | .done _ | .failed _ | .cancelled => true
  | .pending | .running => false

/-- Leaf statuses by position. -/
abbrev Statuses := ℕ → Option LeafStatus

/-- A leaf with its position and printed plan. -/
structure FlatLeaf where
  index : ℕ
  plan : JobPlan
  pipelineText : String
deriving DecidableEq, Repr

def FlatLeaf.command (leaf : FlatLeaf) : List String := leaf.plan.firstCommand

/-- What one advancement asks of the scheduler. -/
@[ext] structure ChainTransition where
  newlyReady : List ℕ := []
  toCancel : List ℕ := []
deriving DecidableEq, Repr

namespace ChainTransition

def pushReady (transition : ChainTransition) (index : ℕ) : ChainTransition :=
  { transition with newlyReady := transition.newlyReady ++ [index] }

def pushCancel (transition : ChainTransition) (index : ℕ) : ChainTransition :=
  { transition with toCancel := transition.toCancel ++ [index] }

end ChainTransition

def flattenLeavesInner : ChainNode → List FlatLeaf → List FlatLeaf
  | .leaf plan, out => out ++ [⟨out.length, plan, plan.display⟩]
  | .serial left _ right, out => flattenLeavesInner right (flattenLeavesInner left out)
  | .parallel left _ right, out => flattenLeavesInner right (flattenLeavesInner left out)

/-- The leaves of a chain in depth-first order. -/
def flattenLeaves (node : ChainNode) : List FlatLeaf := flattenLeavesInner node []

def initiallyReadyInner : ChainNode → ℕ → List ℕ → List ℕ
  | .leaf _, offset, ready => ready ++ [offset]
  | .serial left _ _, offset, ready => initiallyReadyInner left offset ready
  | .parallel left _ right, offset, ready =>
      initiallyReadyInner right (offset + left.leafCount) (initiallyReadyInner left offset ready)

/-- The leaves that may start before any leaf has run. -/
def initiallyReady (node : ChainNode) : List ℕ := initiallyReadyInner node 0 []

/-- The source's test for a leaf that has not been touched: pending, or absent from the table. -/
def untouched (statuses : Statuses) (index : ℕ) : Bool :=
  match statuses index with
  | some .pending | none => true
  | _ => false

def allIndicesSucceeded (indices : List ℕ) (statuses : Statuses) : Bool :=
  indices.all fun index => statuses index == some (.done 0)

def allLeavesTerminal : ChainNode → ℕ → Statuses → Bool
  | .leaf _, offset, statuses => (statuses offset).any LeafStatus.isTerminal
  | .serial left _ right, offset, statuses =>
      allLeavesTerminal left offset statuses &&
        allLeavesTerminal right (offset + left.leafCount) statuses
  | .parallel left _ right, offset, statuses =>
      allLeavesTerminal left offset statuses &&
        allLeavesTerminal right (offset + left.leafCount) statuses

def isChainTerminal (node : ChainNode) (statuses : Statuses) : Bool :=
  allLeavesTerminal node 0 statuses

def allLeavesSucceeded : ChainNode → ℕ → Statuses → Bool
  | .leaf _, offset, statuses => statuses offset == some (.done 0)
  | .serial left _ right, offset, statuses =>
      allLeavesSucceeded left offset statuses &&
        allLeavesSucceeded right (offset + left.leafCount) statuses
  | .parallel left _ right, offset, statuses =>
      allLeavesSucceeded left offset statuses &&
        allLeavesSucceeded right (offset + left.leafCount) statuses

def markReady : ChainNode → ℕ → Statuses → ChainTransition → ChainTransition
  | .leaf _, offset, statuses, transition =>
      if untouched statuses offset then transition.pushReady offset else transition
  | .serial left _ _, offset, statuses, transition => markReady left offset statuses transition
  | .parallel left _ right, offset, statuses, transition =>
      markReady right (offset + left.leafCount) statuses (markReady left offset statuses transition)

def markCancelled : ChainNode → ℕ → Statuses → ChainTransition → ChainTransition
  | .leaf _, offset, statuses, transition =>
      if untouched statuses offset then transition.pushCancel offset else transition
  | .serial left _ right, offset, statuses, transition =>
      markCancelled right (offset + left.leafCount) statuses
        (markCancelled left offset statuses transition)
  | .parallel left _ right, offset, statuses, transition =>
      markCancelled right (offset + left.leafCount) statuses
        (markCancelled left offset statuses transition)

/-- The loop over the losing side of a race: every entry of the table that is not terminal. -/
def cancelRange (indices : List ℕ) (statuses : Statuses) (transition : ChainTransition) :
    ChainTransition :=
  indices.foldl (fun transition index =>
    if (statuses index).all LeafStatus.isTerminal then transition
    else transition.pushCancel index) transition

def advanceInner : ChainNode → ℕ → ℕ → Statuses → ChainTransition → ChainTransition
  | .leaf _, _, _, _, transition => transition
  | .serial left op right, offset, finishedIdx, statuses, transition =>
      let rightOffset := offset + left.leafCount
      if offset ≤ finishedIdx ∧ finishedIdx < rightOffset then
        let transition := advanceInner left offset finishedIdx statuses transition
        if allLeavesTerminal left offset statuses then
          match op with
          | .andThen =>
              if allLeavesSucceeded left offset statuses then
                markReady right rightOffset statuses transition
              else markCancelled right rightOffset statuses transition
          | .always => markReady right rightOffset statuses transition
        else transition
      else advanceInner right rightOffset finishedIdx statuses transition
  | .parallel left op right, offset, finishedIdx, statuses, transition =>
      let rightOffset := offset + left.leafCount
      let transition :=
        if finishedIdx < rightOffset then advanceInner left offset finishedIdx statuses transition
        else advanceInner right rightOffset finishedIdx statuses transition
      match op with
      | .all => transition
      | .race =>
          let leftRange := List.range' offset left.leafCount
          let rightRange := List.range' rightOffset right.leafCount
          let leftOk := allIndicesSucceeded leftRange statuses
          let rightOk := allIndicesSucceeded rightRange statuses
          if leftOk || rightOk then
            cancelRange (if leftOk then rightRange else leftRange) statuses transition
          else transition

/-- Advance a chain after `finishedIdx` has reached a terminal status. -/
def advanceChain (node : ChainNode) (finishedIdx : ℕ) (statuses : Statuses) : ChainTransition :=
  advanceInner node 0 finishedIdx statuses {}

/-- The scan of `aggregateChainExitCode` over the remaining positions. -/
def aggregateFrom (statuses : Statuses) : List ℕ → ℤ → ℤ
  | [], last => last
  | index :: rest, _ =>
      match statuses index with
      | some (.done code) => aggregateFrom statuses rest code
      | some (.failed code) => code
      | some .cancelled => exitCodeUnavailable
      | some .pending | some .running | none => exitCodeUnavailable

def aggregateChainExitCode (node : ChainNode) (statuses : Statuses) : ℤ :=
  aggregateFrom statuses (List.range node.leafCount) 0

end CueShell
