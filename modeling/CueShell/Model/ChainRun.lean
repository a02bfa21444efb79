import CueShell.Model.Chain
import Mathlib.Logic.Function.Basic

/-! # Runs of one chain

The scheduler keeps one status table per chain. It starts the initially ready leaves of the
all-pending table; whenever a started leaf ends it stores the leaf's final status, calls
`advanceChain`, cancels the leaves named by `toCancel` without a second advance, and starts those
named by `newlyReady`. A started leaf whose resources are not available is held: it has a job, but
its entry in the table stays pending until it is admitted. A run state adds the log of started
leaves to the table.
-/

namespace CueShell

/-- How a running leaf ends: its process exits, or the user kills or cancels it. -/
inductive LeafOutcome where
  | exited (code : ℤ)
  | killed
  | cancelled
deriving DecidableEq, Repr

/-- The leaf status the scheduler stores for an ending. -/
def LeafOutcome.status : LeafOutcome → LeafStatus
  | .exited code => if code = 0 then .done code else .failed code
  | .killed => .failed exitCodeUnavailable
  | .cancelled => .cancelled

namespace Statuses

/-- Store one status under every listed position. -/
def setAll (statuses : Statuses) (indices : List ℕ) (status : LeafStatus) : Statuses :=
  fun index => if index ∈ indices then some status else statuses index

/-- Every leaf of a fresh chain is pending. -/
def allPending (node : ChainNode) : Statuses :=
  fun index => if index < node.leafCount then some .pending else none

end Statuses

structure ChainRun where
  statuses : Statuses
  started : List ℕ

namespace ChainRun

/-- Start the listed leaves; those in `held` have to wait for resources. -/
def start (run : ChainRun) (ready held : List ℕ) : ChainRun :=
  ⟨run.statuses.setAll (ready.filter (· ∉ held)) .running, run.started ++ ready⟩

/-- A fresh chain with its initially ready leaves started. -/
def launch (node : ChainNode) (held : List ℕ) : ChainRun :=
  start ⟨Statuses.allPending node, []⟩ (initiallyReady node) held

/-- The table handed to `advanceChain` when leaf `index` ends. -/
def recorded (run : ChainRun) (index : ℕ) (outcome : LeafOutcome) : Statuses :=
  Function.update run.statuses index (some outcome.status)

/-- The transition computed when leaf `index` ends. -/
def advance (node : ChainNode) (run : ChainRun) (index : ℕ) (outcome : LeafOutcome) :
    ChainTransition :=
  advanceChain node index (run.recorded index outcome)

/-- The table once the leaves to cancel are stored as cancelled. -/
def settled (node : ChainNode) (run : ChainRun) (index : ℕ) (outcome : LeafOutcome) : Statuses :=
  (run.recorded index outcome).setAll (run.advance node index outcome).toCancel .cancelled

/-- Record the ending, cancel without a further advance, start what became ready. -/
def complete (node : ChainNode) (run : ChainRun) (index : ℕ) (outcome : LeafOutcome)
    (held : List ℕ) : ChainRun :=
  start ⟨run.settled node index outcome, run.started⟩
    (run.advance node index outcome).newlyReady held

/-- A held leaf gets its resources. -/
def grant (run : ChainRun) (index : ℕ) : ChainRun :=
  ⟨Function.update run.statuses index (some .running), run.started⟩

/-- The states of a chain under any order of endings and admissions of its started leaves. -/
inductive Scheduled (node : ChainNode) : ChainRun → Prop
  | launch (held : List ℕ) : Scheduled node (launch node held)
  | complete {run : ChainRun} {index : ℕ} (outcome : LeafOutcome) (held : List ℕ) :
      Scheduled node run → index ∈ run.started →
        run.statuses index = some .running ∨ run.statuses index = some .pending →
        Scheduled node (run.complete node index outcome held)
  | grant {run : ChainRun} {index : ℕ} :
      Scheduled node run → index ∈ run.started → run.statuses index = some .pending →
        Scheduled node (run.grant index)

/-- The states of a chain whose leaves never wait for resources. -/
inductive Reachable (node : ChainNode) : ChainRun → Prop
  | launch : Reachable node (launch node [])
  | complete {run : ChainRun} {index : ℕ} (outcome : LeafOutcome) :
      Reachable node run → run.statuses index = some .running →
        Reachable node (run.complete node index outcome [])

end ChainRun

end CueShell
