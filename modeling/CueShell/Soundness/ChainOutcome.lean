import CueShell.Model.Parser.Resolver
import CueShell.Proofs.ChainRuns
import CueShell.Proofs.ChainSubtrees

/-! # Exit codes and the meaning of the operators

The exit code of a finished chain and the release of a `->` successor are both computed from "every
leaf is done with code zero". This agrees with the operators' meaning except where a race is won:
its loser is never done with code zero.
-/

namespace CueShell

variable {node left right : ChainNode} {run : ChainRun} {offset index : ℕ}
variable {statuses : Statuses} {triggered : ℕ → Prop}

/-- Success as the operators mean it: a race succeeds when any side does. -/
def ChainNode.succeeds : ChainNode → ℕ → Statuses → Bool
  | .leaf _, offset, statuses => statuses offset == some (.done 0)
  | .serial left _ right, offset, statuses =>
      left.succeeds offset statuses && right.succeeds (offset + left.leafCount) statuses
  | .parallel left .all right, offset, statuses =>
      left.succeeds offset statuses && right.succeeds (offset + left.leafCount) statuses
  | .parallel left .race right, offset, statuses =>
      left.succeeds offset statuses || right.succeeds (offset + left.leafCount) statuses

def ChainNode.raceFree : ChainNode → Bool
  | .leaf _ => true
  | .serial left _ right => left.raceFree && right.raceFree
  | .parallel left op right => op == .all && left.raceFree && right.raceFree

/-- Without races, success means that every leaf is done with code zero. -/
theorem succeeds_iff_won (raceFree : node.raceFree = true) :
    node.succeeds offset statuses = true ↔ node.Won offset statuses := by
  induction node generalizing offset with
  | leaf plan => simp [ChainNode.succeeds, ChainNode.Won, Statuses.Succeeded]
  | serial left op right ihl ihr =>
    simp only [ChainNode.raceFree, Bool.and_eq_true] at raceFree
    simp [ChainNode.succeeds, won_serial, ihl raceFree.1, ihr raceFree.2]
  | parallel left op right ihl ihr =>
    simp only [ChainNode.raceFree, Bool.and_eq_true, beq_iff_eq] at raceFree
    obtain ⟨⟨rfl, freeLeft⟩, freeRight⟩ := raceFree
    simp [ChainNode.succeeds, won_parallel, ihl freeLeft, ihr freeRight]

/-- A race never has all its leaves done with code zero. -/
theorem Guarded.race_not_won (guarded : Guarded triggered (.parallel left .race right) offset statuses) :
    ¬ (ChainNode.parallel left .race right).Won offset statuses := by
  intro won
  obtain ⟨wonLeft, wonRight⟩ := won_parallel.mp won
  exact ((guarded.2.2 rfl).1 wonLeft).2 wonRight

/-- A guarded chain in which every leaf is done with code zero has no race. -/
theorem Guarded.raceFree_of_won (guarded : Guarded triggered node offset statuses)
    (won : node.Won offset statuses) : node.raceFree = true := by
  induction node generalizing offset with
  | leaf plan => rfl
  | serial left op right ihl ihr =>
    obtain ⟨wonLeft, wonRight⟩ := won_serial.mp won
    simp [ChainNode.raceFree, ihl guarded.1 wonLeft, ihr guarded.2.1 wonRight]
  | parallel left op right ihl ihr =>
    cases op with
    | all =>
      obtain ⟨wonLeft, wonRight⟩ := won_parallel.mp won
      simp [ChainNode.raceFree, ihl guarded.1 wonLeft, ihr guarded.2.1 wonRight]
    | race => exact (guarded.race_not_won won).elim

/-- The scan stops at the first leaf that is not done. -/
theorem aggregateFrom_eq_zero {indices : List ℕ} {last : ℤ} (coded : ∀ index ∈ indices,
      ∃ status, statuses index = some status ∧ status.Coded) (lastZero : last = 0) :
    aggregateFrom statuses indices last = 0 ↔ ∀ index ∈ indices, statuses.Succeeded index := by
  induction indices generalizing last with
  | nil => simp [aggregateFrom, lastZero]
  | cons head rest ih =>
    obtain ⟨⟨status, stored, final⟩, codedRest⟩ := List.forall_mem_cons.mp coded
    rw [aggregateFrom, List.forall_mem_cons, Statuses.Succeeded, stored]
    cases status with
    | done code =>
      have zero : code = 0 := final
      simp [zero, ih codedRest rfl]
    | failed code =>
      have nonzero : code ≠ 0 := final
      simp [nonzero]
    | cancelled => simp [exitCodeUnavailable]
    | pending => simp [exitCodeUnavailable]
    | running => simp [exitCodeUnavailable]

/-- Every race with a winner that is followed by `->` has its successor started. -/
def SuccessorStarted (node : ChainNode) (run : ChainRun) : Prop :=
  ∀ left right successor offset,
    (ChainNode.serial (.parallel left .race right) .andThen successor).Within offset node 0 →
    (ChainNode.parallel left .race right).succeeds offset run.statuses = true →
    ∀ index ∈ successor.entries (offset + (left.leafCount + right.leafCount)), index ∈ run.started

/-- No race that is followed by `->` has a winner. -/
def NoWinnerBeforeThen (node : ChainNode) (statuses : Statuses) : Prop :=
  ∀ left right successor offset,
    (ChainNode.serial (.parallel left .race right) .andThen successor).Within offset node 0 →
    (ChainNode.parallel left .race right).succeeds offset statuses = false

namespace ChainRun

theorem Sound.aggregate_eq_zero (sound : Sound node run) :
    aggregateChainExitCode node run.statuses = 0 ↔ node.Won 0 run.statuses := by
  rw [aggregateChainExitCode, aggregateFrom_eq_zero (fun index member => ?_) rfl]
  · simp [ChainNode.Won]
  · obtain ⟨status, stored⟩ := Option.isSome_iff_exists.mp
      ((sound.domain index).mpr (List.mem_range.mp member))
    exact ⟨status, stored, sound.coded index status stored⟩

theorem Sound.aggregate_agrees_iff (sound : Sound node run) :
    (aggregateChainExitCode node run.statuses = 0 ↔ node.succeeds 0 run.statuses = true) ↔
      node.raceFree = true ∨ node.succeeds 0 run.statuses = false := by
  rw [sound.aggregate_eq_zero]
  cases free : node.raceFree with
  | true => simp [succeeds_iff_won free]
  | false =>
    have lost : ¬ node.Won 0 run.statuses := fun won => by
      simp [sound.guarded.raceFree_of_won won] at free
    simp [lost]

theorem Sound.successor_started_iff (sound : Sound node run) :
    SuccessorStarted node run ↔ NoWinnerBeforeThen node run.statuses := by
  constructor
  · intro started left right successor offset within
    by_contra won
    have succeeds := (Bool.not_eq_false _).mp won
    obtain ⟨entry, member⟩ := List.exists_mem_of_ne_nil _
      (entries_ne_nil successor (offset + (left.leafCount + right.leafCount)))
    have fired := started left right successor offset within succeeds entry member
    have guarded := sound.guarded.within within
    have wonRace := (guarded.2.2 ⟨entry, entries_covered member, fired⟩).2 rfl
    exact guarded.1.race_not_won wonRace
  · intro noWinner left right successor offset within succeeds
    simp [noWinner left right successor offset within] at succeeds

/-- The outcome of a chain agrees with the operators' meaning exactly if the chain has no race or
does not succeed, and no race followed by `->` has a winner. -/
theorem outcome_agrees_iff (scheduled : Scheduled node run) :
    ((aggregateChainExitCode node run.statuses = 0 ↔ node.succeeds 0 run.statuses = true) ∧
      SuccessorStarted node run) ↔
    (node.raceFree = true ∨ node.succeeds 0 run.statuses = false) ∧
      NoWinnerBeforeThen node run.statuses :=
  and_congr scheduled.sound.aggregate_agrees_iff scheduled.sound.successor_started_iff

/-- The race `a |?| b` after both have failed. -/
theorem outcome_agrees_lost_race :
    let leaf name := ChainNode.leaf (.simple [name])
    let node := ChainNode.parallel (leaf "a") .race (leaf "b")
    let run := ((launch node []).complete node 0 (.exited 1) []).complete node 1 (.exited 2) []
    isChainTerminal node run.statuses = true ∧
      (aggregateChainExitCode node run.statuses = 0 ↔ node.succeeds 0 run.statuses = true) ∧
      SuccessorStarted node run := by
  intro leaf node run
  have scheduled : Scheduled node run :=
    .complete (.exited 2) [] (.complete (.exited 1) [] (.launch []) (by decide) (.inl (by decide)))
      (by decide) (.inl (by decide))
  refine ⟨by decide, (outcome_agrees_iff scheduled).mpr ⟨.inr (by decide), ?_⟩⟩
  intro left right successor offset within
  change ChainNode.Within _ _ (.parallel (.leaf _) .race (.leaf _)) 0 at within
  cases within with
  | parallelLeft inner => cases inner
  | parallelRight inner => cases inner

/-- A won race has a nonzero exit code, and `c` of `a |?| b -> c` is cancelled although the race
has a winner. -/
theorem race_winner_ignored :
    let leaf name := ChainNode.leaf (.simple [name])
    let race := ChainNode.parallel (leaf "a") .race (leaf "b")
    let won := (launch race []).complete race 0 (.exited 0) []
    let node := ChainNode.serial race .andThen (leaf "c")
    let ended := ((launch node []).complete node 1 (.exited 1) []).complete node 0 (.exited 0) []
    parseCommand ":run a |?| b" .job = some (.ok (.single (.run race {}))) ∧
    Reachable race won ∧ isChainTerminal race won.statuses = true ∧
    race.succeeds 0 won.statuses = true ∧ aggregateChainExitCode race won.statuses = -1 ∧
    parseCommand ":run a |?| b -> c" .job = some (.ok (.single (.run node {}))) ∧
    Reachable node ended ∧ isChainTerminal node ended.statuses = true ∧
    race.succeeds 0 ended.statuses = true ∧ 2 ∉ ended.started := by
  intro leaf race won node ended
  exact ⟨by decide, .complete _ .launch (by decide), by decide, by decide, by decide, by decide,
    .complete _ (.complete _ .launch (by decide)) (by decide), by decide, by decide, by decide⟩

end ChainRun

end CueShell
