import Mathlib.Data.Int.Notation

/-! # Job status

The lifecycle of one job. Exit codes are signed integers; `exitCodeUnavailable` stands for every
ending without a process-provided code (spawn failure, kill, cancellation).
-/

namespace CueShell

def exitCodeUnavailable : ℤ := -1

/-- What a client attached to the terminal of a job may do with it. -/
inductive ForegroundRole where
  | controller
  | observer
deriving DecidableEq, Repr

inductive CancelReason where
  | user
  | chainAborted
  | timeout
deriving DecidableEq, Repr

inductive JobStatus where
  | pending
  | running
  | done
  | failed
  | killed
  | cancelled (reason : CancelReason)
deriving DecidableEq, Repr

def JobStatus.isTerminal : JobStatus → Bool
  | .done | .failed | .killed | .cancelled _ => true
  | .pending | .running => false

end CueShell
