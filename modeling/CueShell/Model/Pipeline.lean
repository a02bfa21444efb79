import Mathlib.Data.List.Basic

/-! # Job plans and chain trees

The execution plans of `cue-core`: a job is a tree of `&&`/`||` over pipelines, a chain is a tree
of `->`, `~>`, `|||` and `|?|` over jobs. Words are Unicode strings. The printers follow the
`Display` implementations word for word; they are the only persistent form of a plan.
-/

namespace CueShell

/-- Pipe operator between two processes of one job. -/
inductive PipeOp where
  | stdout
  | stdoutStderr
  | stderrOnly
deriving DecidableEq, Repr

/-- Serial chain operators: `->` continues on exit code zero, `~>` always continues. -/
inductive SerialOp where
  | andThen
  | always
deriving DecidableEq, Repr

/-- Parallel chain operators: `|||` waits for all branches, `|?|` succeeds when any one succeeds. -/
inductive ParallelOp where
  | all
  | race
deriving DecidableEq, Repr

/-- One process of a pipeline; the last segment usually has no outgoing pipe. -/
structure PipeSegment where
  command : List String
  pipeToNext : Option PipeOp
deriving DecidableEq, Repr

structure Pipeline where
  segments : List PipeSegment
deriving DecidableEq, Repr

/-- A single job, possibly with job-internal logical operators. -/
inductive JobPlan where
  | pipeline (body : Pipeline)
  | and (left right : JobPlan)
  | or (left right : JobPlan)
deriving DecidableEq, Repr

/-- Each leaf of a chain becomes one job. -/
inductive ChainNode where
  | leaf (plan : JobPlan)
  | serial (left : ChainNode) (op : SerialOp) (right : ChainNode)
  | parallel (left : ChainNode) (op : ParallelOp) (right : ChainNode)
deriving DecidableEq, Repr

def PipeOp.display : PipeOp → String
  | .stdout => "|>"
  | .stdoutStderr => "|&>"
  | .stderrOnly => "|!>"

def SerialOp.display : SerialOp → String
  | .andThen => "->"
  | .always => "~>"

def ParallelOp.display : ParallelOp → String
  | .all => "|||"
  | .race => "|?|"

/-- One segment: its words joined by blanks, then the pipe operator if there is one. -/
def PipeSegment.display (segment : PipeSegment) : String :=
  let cmd := " ".intercalate segment.command
  match segment.pipeToNext with
  | some op => cmd ++ " " ++ op.display
  | none => cmd

def Pipeline.display (pipeline : Pipeline) : String :=
  " ".intercalate (pipeline.segments.map PipeSegment.display)

def JobPlan.display : JobPlan → String
  | .pipeline body => body.display
  | .and left right => left.display ++ " && " ++ right.display
  | .or left right => left.display ++ " || " ++ right.display

def ChainNode.display : ChainNode → String
  | .leaf plan => plan.display
  | .serial left op right => left.display ++ " " ++ op.display ++ " " ++ right.display
  | .parallel left op right => left.display ++ " " ++ op.display ++ " " ++ right.display

/-- A single-command job. -/
def JobPlan.simple (command : List String) : JobPlan :=
  .pipeline ⟨[⟨command, none⟩]⟩

/-- The words of the leftmost segment, empty for a pipeline without segments. -/
def JobPlan.firstCommand : JobPlan → List String
  | .pipeline body => (body.segments.head?.map PipeSegment.command).getD []
  | .and left _ => left.firstCommand
  | .or left _ => left.firstCommand

/-- Every pipeline of a job, left to right. -/
def JobPlan.pipelines : JobPlan → List Pipeline
  | .pipeline body => [body]
  | .and left right => left.pipelines ++ right.pipelines
  | .or left right => left.pipelines ++ right.pipelines

/-- The number of jobs a chain creates when every leaf is started. -/
def ChainNode.leafCount : ChainNode → ℕ
  | .leaf _ => 1
  | .serial left _ right => left.leafCount + right.leafCount
  | .parallel left _ right => left.leafCount + right.leafCount

theorem ChainNode.leafCount_pos (node : ChainNode) : 0 < node.leafCount := by
  induction node with
  | leaf _ => exact Nat.one_pos
  | serial left op right ihl ihr => exact Nat.add_pos_left ihl _
  | parallel left op right ihl ihr => exact Nat.add_pos_left ihl _

end CueShell
