import CueShell.Model.Parser.Resolver
import CueShell.Proofs.ChainRuns
import CueShell.Proofs.ChainSubtrees
import Mathlib.Algebra.GroupWithZero.Nat

/-! # Races with any number of branches

The parser nests `a |?| b |?| c` to the left, and the winner test belongs to each binary node. A
branch that succeeds therefore cancels the branches up to its own node: all branches before it, and
the second one if the first wins. Branches further to the right are not reached.
-/

namespace CueShell

variable {node first : ChainNode} {rest : List ChainNode} {run : ChainRun}
variable {offset index finished : ℕ} {statuses : Statuses}

section Branches

/-- A race over a list of branches, nested as `parse_parallel` nests it. -/
def raceOf (first : ChainNode) (rest : List ChainNode) : ChainNode :=
  rest.foldl (fun race branch => .parallel race .race branch) first

theorem raceOf_snoc (first : ChainNode) (rest : List ChainNode) (last : ChainNode) :
    raceOf first (rest ++ [last]) = .parallel (raceOf first rest) .race last := by
  simp [raceOf, List.foldl_append]

/-- Branch number `position` of a race, with the position of its first leaf. -/
structure IsBranch (first : ChainNode) (rest : List ChainNode) (offset position : ℕ)
    (branch : ChainNode) (branchOffset : ℕ) : Prop where
  atPosition : (first :: rest)[position]? = some branch
  placed : branchOffset = offset + (((first :: rest).take position).map ChainNode.leafCount).sum

theorem leafCount_raceOf (first : ChainNode) (rest : List ChainNode) :
    (raceOf first rest).leafCount = ((first :: rest).map ChainNode.leafCount).sum := by
  induction rest using List.reverseRecOn with
  | nil => simp [raceOf]
  | append_singleton rest last ih =>
    rw [raceOf_snoc, ChainNode.leafCount, ih]
    simp [Nat.add_assoc]

variable {branch : ChainNode} {position branchOffset : ℕ} {last : ChainNode}

theorem isBranch_nil : IsBranch first [] offset position branch branchOffset ↔
    position = 0 ∧ branch = first ∧ branchOffset = offset := by
  constructor
  · rintro ⟨atPosition, placed⟩
    have zero : position = 0 := by simpa using (List.getElem?_eq_some_iff.mp atPosition).1
    subst zero
    simp only [List.getElem?_cons_zero, Option.some.injEq] at atPosition
    simp only [List.take_zero, List.map_nil, List.sum_nil, Nat.add_zero] at placed
    exact ⟨rfl, atPosition.symm, placed⟩
  · rintro ⟨rfl, rfl, rfl⟩
    exact ⟨rfl, by simp⟩

/-- A branch of a longer race is a branch of the shorter one, or the last operand. -/
theorem isBranch_snoc :
    IsBranch first (rest ++ [last]) offset position branch branchOffset ↔
      (position ≤ rest.length ∧ IsBranch first rest offset position branch branchOffset) ∨
      (position = rest.length + 1 ∧ branch = last ∧
        branchOffset = offset + (raceOf first rest).leafCount) := by
  have split : first :: (rest ++ [last]) = (first :: rest) ++ [last] := rfl
  constructor
  · rintro ⟨atPosition, placed⟩
    rw [split] at atPosition placed
    by_cases early : position ≤ rest.length
    · rw [List.getElem?_append_left (by simp; omega)] at atPosition
      rw [List.take_append_of_le_length (by simp; omega)] at placed
      exact .inl ⟨early, atPosition, placed⟩
    · have inRange : position < ((first :: rest) ++ [last]).length :=
        (List.getElem?_eq_some_iff.mp atPosition).1
      have exact' : position = rest.length + 1 := by
        simp at inRange
        omega
      subst exact'
      refine .inr ⟨rfl, ?_, ?_⟩
      · rw [List.getElem?_append_right (by simp)] at atPosition
        simpa using atPosition.symm
      · rw [placed, leafCount_raceOf, List.take_append_of_le_length (by simp),
          List.take_of_length_le (by simp)]
  · rintro (⟨early, atPosition, placed⟩ | ⟨rfl, rfl, placed⟩)
    · refine ⟨?_, ?_⟩
      · rw [split, List.getElem?_append_left (by simp; omega)]
        exact atPosition
      · rw [split, List.take_append_of_le_length (by simp; omega)]
        exact placed
    · refine ⟨?_, ?_⟩
      · rw [split, List.getElem?_append_right (by simp)]
        simp
      · rw [split, List.take_append_of_le_length (by simp), List.take_of_length_le (by simp), placed,
          leafCount_raceOf]

theorem IsBranch.within (isBranch : IsBranch first rest offset position branch branchOffset) :
    branch.Within branchOffset (raceOf first rest) offset := by
  induction rest using List.reverseRecOn with
  | nil =>
    obtain ⟨rfl, rfl, rfl⟩ := isBranch_nil.mp isBranch
    exact .here
  | append_singleton rest last ih =>
    rw [raceOf_snoc]
    rcases isBranch_snoc.mp isBranch with ⟨_, shorter⟩ | ⟨_, rfl, rfl⟩
    · exact .parallelLeft (ih shorter)
    · exact .parallelRight .here

/-- A won race of at least two branches leaves no side of it contested. -/
theorem not_won_of_contested (several : rest ≠ [])
    (covered : (raceOf first rest).Covers offset finished)
    (contested : Contested (raceOf first rest) offset finished statuses) :
    ¬ (raceOf first rest).Won offset statuses := by
  obtain ⟨front, last, rfl⟩ := List.eq_nil_or_concat rest |>.resolve_left several
  rw [List.concat_eq_append] at covered contested ⊢
  rw [raceOf_snoc] at covered contested ⊢
  rw [Contested] at contested
  intro won
  rw [won_parallel] at won
  split at contested
  · exact contested.1 rfl won.2
  · exact contested.1 rfl won.1

variable {winner winnerOffset place : ℕ} {champion : ChainNode}

theorem not_open_of_terminal (ended : statuses.Terminal index) : statuses.open index = false :=
  Bool.eq_false_iff.mpr fun isOpen => not_terminal_of_open isOpen ended

/-- What the advancement of a race cancels when branch `winner` succeeds. -/
theorem mem_race_toCancel (isWinner : IsBranch first rest offset winner champion winnerOffset)
    (covered : champion.Covers winnerOffset finished)
    (won : champion.Won winnerOffset statuses)
    (contested : Contested (raceOf first rest) offset finished statuses)
    (isBranch : IsBranch first rest offset place branch branchOffset)
    (inside : branch.Covers branchOffset index) :
    index ∈ ((raceOf first rest).advanced offset finished statuses).toCancel ↔
      statuses.open index = true ∧ place ≠ winner ∧ place ≤ max winner 1 := by
  have nothing : place = winner →
      index ∉ ((raceOf first rest).advanced offset finished statuses).toCancel := by
    rintro rfl dropped
    have same : branch = champion := Option.some.inj (isBranch.atPosition ▸ isWinner.atPosition)
    subst same
    have here : branchOffset = winnerOffset := isBranch.placed.trans isWinner.placed.symm
    exact (toCancel_sound (isWinner.within.covers covered) dropped).2
      (won index (here ▸ inside)).terminal
  induction rest using List.reverseRecOn with
  | nil =>
    have same : place = winner :=
      (isBranch_nil.mp isBranch).1.trans (isBranch_nil.mp isWinner).1.symm
    exact iff_of_false (nothing same) fun claim => claim.2.1 same
  | append_singleton rest last ih =>
    rcases eq_or_ne place winner with same | apart
    · exact iff_of_false (nothing same) fun claim => claim.2.1 same
    rw [raceOf_snoc] at contested ⊢
    rcases isBranch_snoc.mp isWinner with ⟨early, shorter⟩ | ⟨rfl, rfl, rfl⟩
    · have inFront := shorter.within.covers covered
      rw [Contested, if_pos inFront.2] at contested
      rw [advanced_parallel_left inFront, ChainTransition.toCancel_append, List.mem_append]
      rcases isBranch_snoc.mp isBranch with ⟨_, shorterBranch⟩ | ⟨rfl, rfl, rfl⟩
      · have insideFront := shorterBranch.within.covers inside
        have front := ih shorter contested.2 shorterBranch fun same => (apart same).elim
        refine (or_iff_left fun outrun => ?_).trans front
        exact insideFront.not_right (verdict_right_of_contested contested.1 outrun).2
      · have notFront : index ∉ ((raceOf first rest).advanced offset finished statuses).toCancel :=
          fun dropped => (toCancel_sound inFront dropped).1.not_right inside
        rw [or_iff_right notFront, mem_verdict_toCancel]
        cases rest with
        | nil =>
          obtain ⟨rfl, rfl, rfl⟩ := isBranch_nil.mp shorter
          have wonFront : (raceOf champion []).Won winnerOffset statuses := won
          simp [wonFront, inside]
        | cons second others =>
          have lost := not_won_of_contested (List.cons_ne_nil second others) inFront contested.2
          refine iff_of_false (fun claim => ?_) (fun claim => ?_)
          · exact claim.2.2.elim (fun side => lost side.1) fun side => contested.1 rfl side.2.1
          · have bound := claim.2.2
            simp only [List.length_cons] at early bound
            omega
    · have notFront : ¬ finished < offset + (raceOf first rest).leafCount := not_lt_of_ge covered.1
      rw [Contested, if_neg notFront] at contested
      rw [advanced_parallel_right covered, ChainTransition.toCancel_append, List.mem_append]
      obtain ⟨before, shorterBranch⟩ :=
        (isBranch_snoc.mp isBranch).resolve_right fun isLast => apart isLast.1
      have insideFront := shorterBranch.within.covers inside
      have notLast : index ∉ (champion.advanced (offset + (raceOf first rest).leafCount) finished
          statuses).toCancel :=
        fun dropped => insideFront.not_right (toCancel_sound covered dropped).1
      rw [or_iff_right notLast, mem_verdict_toCancel]
      have bound : place ≤ rest.length + 1 := by omega
      simp [contested.1 rfl, won, insideFront, apart, bound]

theorem newlyReady_of_won (covered : node.Covers offset finished) (won : node.Won offset statuses) :
    index ∉ (node.advanced offset finished statuses).newlyReady := by
  intro ready
  obtain ⟨inside, fresh⟩ := newlyReady_sound covered ready
  exact not_terminal_of_untouched fresh (won index inside).terminal

/-- A branch that has succeeded starts nothing, and neither do the race nodes above it. -/
theorem newlyReady_race (isWinner : IsBranch first rest offset winner champion winnerOffset)
    (covered : champion.Covers winnerOffset finished) (won : champion.Won winnerOffset statuses) :
    index ∉ ((raceOf first rest).advanced offset finished statuses).newlyReady := by
  induction rest using List.reverseRecOn with
  | nil =>
    obtain ⟨rfl, rfl, rfl⟩ := isBranch_nil.mp isWinner
    exact newlyReady_of_won covered won
  | append_singleton rest last ih =>
    rw [raceOf_snoc]
    rcases isBranch_snoc.mp isWinner with ⟨_, shorter⟩ | ⟨rfl, rfl, rfl⟩
    · rw [advanced_parallel_left (shorter.within.covers covered), ChainTransition.newlyReady_append,
        verdict_newlyReady, List.append_nil]
      exact ih shorter
    · rw [advanced_parallel_right covered, ChainTransition.newlyReady_append, verdict_newlyReady,
        List.append_nil]
      exact newlyReady_of_won covered won

end Branches

namespace ChainRun

variable {champion : ChainNode} {winner winnerOffset : ℕ} {outcome : LeafOutcome}

/-- The transition stops the other branches of a race: it cancels their open leaves and starts
none of them. -/
def StopsLosers (first : ChainNode) (rest : List ChainNode) (offset winner : ℕ)
    (statuses : Statuses) (transition : ChainTransition) : Prop :=
  ∀ place branch branchOffset, IsBranch first rest offset place branch branchOffset →
    place ≠ winner → ∀ index, branch.Covers branchOffset index →
      (¬ statuses.Terminal index → index ∈ transition.toCancel) ∧ index ∉ transition.newlyReady

/-- When a branch succeeds, the others are stopped exactly if the branches after it, and after the
second one, had ended already. -/
theorem race_stops_losers_iff (scheduled : Scheduled node run)
    (within : (raceOf first rest).Within offset node 0)
    (isWinner : IsBranch first rest offset winner champion winnerOffset)
    (covered : champion.Covers winnerOffset finished)
    (running : run.statuses finished = some .running)
    (won : champion.Won winnerOffset (run.recorded finished outcome)) :
    StopsLosers first rest offset winner (run.recorded finished outcome)
        (run.advance node finished outcome) ↔
      ∀ place branch branchOffset, IsBranch first rest offset place branch branchOffset →
        max winner 1 < place → branch.Ended branchOffset (run.recorded finished outcome) := by
  have sound := scheduled.sound
  have member := sound.started_of_running running
  have contested := sound.contested member (.inl running) outcome
  have inRace := isWinner.within.covers covered
  have cancels : ∀ place branch branchOffset,
      IsBranch first rest offset place branch branchOffset →
      ∀ index, branch.Covers branchOffset index →
        (index ∈ (run.advance node finished outcome).toCancel ↔
          (run.recorded finished outcome).open index = true ∧ place ≠ winner ∧
            place ≤ max winner 1) := by
    intro place branch branchOffset isBranch index inside
    refine (toCancel_within within inRace (isBranch.within.covers inside) contested).trans ?_
    exact mem_race_toCancel isWinner covered won (contested.within within inRace) isBranch inside
  constructor
  · intro stops place branch branchOffset isBranch late index inside
    by_contra unfinished
    have apart : place ≠ winner := by omega
    have dropped := (stops place branch branchOffset isBranch apart index inside).1 unfinished
    have bound := ((cancels place branch branchOffset isBranch index inside).mp dropped).2.2
    omega
  · intro ended place branch branchOffset isBranch apart index inside
    have insideRace := isBranch.within.covers inside
    have present := (sound.recorded_domain member outcome index).mpr
      (covers_root.mp (within.covers insideRace))
    refine ⟨fun unfinished => ?_, fun ready => ?_⟩
    · rw [cancels place branch branchOffset isBranch index inside]
      refine ⟨open_of_not_terminal present unfinished, apart, not_lt.mp fun late => ?_⟩
      exact unfinished (ended place branch branchOffset isBranch late index inside)
    · have inner := newlyReady_within within inRace insideRace ready
      exact newlyReady_race isWinner covered won inner

/-- The race `a |?| b` when `a` succeeds: `b` is stopped. -/
theorem race_stops_losers_pair :
    let leaf name := ChainNode.leaf (.simple [name])
    let node := raceOf (leaf "a") [leaf "b"]
    StopsLosers (leaf "a") [leaf "b"] 0 0 ((launch node []).recorded 0 (.exited 0))
      ((launch node []).advance node 0 (.exited 0)) := by
  intro leaf node
  refine (race_stops_losers_iff (Scheduled.launch [] : Scheduled node _) .here
    ⟨rfl, rfl⟩ ⟨le_refl 0, by decide⟩ (by decide) (allLeavesSucceeded_iff.mp (by decide))).mpr ?_
  intro place branch branchOffset isBranch late
  have bound : place < 2 := (List.getElem?_eq_some_iff.mp isBranch.1).1
  exact absurd late (by simp; omega)

/-- The race `a |?| b |?| c` when `a` succeeds: `c` goes on running. -/
theorem race_spares_third :
    let leaf name := ChainNode.leaf (.simple [name])
    let node := raceOf (leaf "a") [leaf "b", leaf "c"]
    let run := launch node []
    parseCommand ":run a |?| b |?| c" .job = some (.ok (.single (.run node {}))) ∧
    Reachable node run ∧ (leaf "a").Won 0 (run.recorded 0 (.exited 0)) ∧
    run.recorded 0 (.exited 0) 2 = some .running ∧ 2 ∉ (run.advance node 0 (.exited 0)).toCancel := by
  intro leaf node run
  refine ⟨by decide, .launch, allLeavesSucceeded_iff.mp (by decide), by decide, by decide⟩

end ChainRun

end CueShell
