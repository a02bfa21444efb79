import CueShell.Proofs.ChainAdvance

/-! # The invariant of chain runs

`Guarded triggered node offset statuses` says of every serial node that its right operand has
triggered leaves only after the left one ended (with success, for `->`), and of every race that a
side which has succeeded leaves the other one ended and without success. One advancement keeps it,
whatever subset of the leaves has been triggered before.
-/

namespace CueShell

variable {statuses before after : Statuses} {node left right : ChainNode}
variable {offset index finished : ℕ} {triggered triggered' : ℕ → Prop}

theorem untouched_iff :
    untouched statuses index = true ↔ statuses index = some .pending ∨ statuses index = none := by
  unfold untouched
  split <;> simp_all

theorem not_terminal_of_untouched (fresh : untouched statuses index = true) :
    ¬ statuses.Terminal index := by
  rcases untouched_iff.mp fresh with pending | absent
  · simp [Statuses.Terminal, pending, LeafStatus.isTerminal]
  · simp [Statuses.Terminal, absent]

theorem not_terminal_of_open (isOpen : statuses.open index = true) :
    ¬ statuses.Terminal index := by
  unfold Statuses.open at isOpen
  unfold Statuses.Terminal
  cases status : statuses index <;> simp_all

theorem open_of_not_terminal (present : (statuses index).isSome)
    (unfinished : ¬ statuses.Terminal index) : statuses.open index = true := by
  unfold Statuses.open
  unfold Statuses.Terminal at unfinished
  cases status : statuses index <;> simp_all

section Transition

theorem mem_follow_newlyReady {op : SerialOp} :
    index ∈ (left.follow op right offset statuses).newlyReady ↔
      left.Ended offset statuses ∧ (op = .always ∨ left.Won offset statuses) ∧
        index ∈ right.entries (offset + left.leafCount) ∧ untouched statuses index = true := by
  simp only [ChainNode.follow, allLeavesTerminal_iff, allLeavesSucceeded_iff]
  split_ifs with ended released <;> simp_all

theorem mem_follow_toCancel {op : SerialOp} :
    index ∈ (left.follow op right offset statuses).toCancel ↔
      left.Ended offset statuses ∧ ¬ (op = .always ∨ left.Won offset statuses) ∧
        right.Covers (offset + left.leafCount) index ∧ untouched statuses index = true := by
  simp only [ChainNode.follow, allLeavesTerminal_iff, allLeavesSucceeded_iff]
  split_ifs with ended released <;> simp_all

theorem verdict_newlyReady {op : ParallelOp} :
    (left.verdict op right offset statuses).newlyReady = [] := by
  simp only [ChainNode.verdict, ChainNode.outrun]
  split_ifs <;> rfl

theorem mem_verdict_toCancel {op : ParallelOp} :
    index ∈ (left.verdict op right offset statuses).toCancel ↔
      op = .race ∧ statuses.open index = true ∧
        (left.Won offset statuses ∧ right.Covers (offset + left.leafCount) index ∨
          ¬ left.Won offset statuses ∧ right.Won (offset + left.leafCount) statuses ∧
            left.Covers offset index) := by
  simp only [ChainNode.verdict, ChainNode.outrun, allLeavesSucceeded_iff]
  split_ifs with race wonLeft wonRight <;> simp_all [and_comm]

theorem follow_newlyReady_nodup {op : SerialOp} :
    (left.follow op right offset statuses).newlyReady.Nodup := by
  simp only [ChainNode.follow]
  split_ifs
  · exact (entries_nodup ..).filter _
  · exact List.nodup_nil
  · exact List.nodup_nil

theorem follow_toCancel_nodup {op : SerialOp} :
    (left.follow op right offset statuses).toCancel.Nodup := by
  simp only [ChainNode.follow]
  split_ifs
  · exact List.nodup_nil
  · exact (block_nodup ..).filter _
  · exact List.nodup_nil

theorem verdict_toCancel_nodup {op : ParallelOp} :
    (left.verdict op right offset statuses).toCancel.Nodup := by
  simp only [ChainNode.verdict, ChainNode.outrun]
  split_ifs
  · exact (block_nodup ..).filter _
  · exact (block_nodup ..).filter _
  · exact List.nodup_nil
  · exact List.nodup_nil

/-- A newly ready leaf lies in the subtree and had not been touched. -/
theorem newlyReady_sound (covered : node.Covers offset finished)
    (ready : index ∈ (node.advanced offset finished statuses).newlyReady) :
    node.Covers offset index ∧ untouched statuses index = true := by
  induction covered using ChainNode.Covers.path_induction with
  | leaf plan => simp [advanced_leaf] at ready
  | serialLeft left op right offset covered _ ih =>
    rw [advanced_serial_left covered] at ready
    rcases List.mem_append.mp ready with inner | released
    · exact (ih inner).imp_left (fun inLeft => covers_serial.mpr (.inl inLeft))
    · obtain ⟨_, _, entry, fresh⟩ := mem_follow_newlyReady.mp released
      exact ⟨covers_serial.mpr (.inr (entries_covered entry)), fresh⟩
  | serialRight left op right offset covered _ ih =>
    rw [advanced_serial_right covered] at ready
    exact (ih ready).imp_left (fun inRight => covers_serial.mpr (.inr inRight))
  | parallelLeft left op right offset covered _ ih =>
    rw [advanced_parallel_left covered, ChainTransition.newlyReady_append, verdict_newlyReady,
      List.append_nil] at ready
    exact (ih ready).imp_left (fun inLeft => covers_parallel.mpr (.inl inLeft))
  | parallelRight left op right offset covered _ ih =>
    rw [advanced_parallel_right covered, ChainTransition.newlyReady_append, verdict_newlyReady,
      List.append_nil] at ready
    exact (ih ready).imp_left (fun inRight => covers_parallel.mpr (.inr inRight))

/-- A leaf makes only later leaves ready. -/
theorem newlyReady_later (covered : node.Covers offset finished)
    (ready : index ∈ (node.advanced offset finished statuses).newlyReady) : finished < index := by
  induction covered using ChainNode.Covers.path_induction with
  | leaf plan => simp [advanced_leaf] at ready
  | serialLeft left op right offset covered _ ih =>
    rw [advanced_serial_left covered] at ready
    rcases List.mem_append.mp ready with inner | released
    · exact ih inner
    · have later := (entries_covered (mem_follow_newlyReady.mp released).2.2.1).1
      have earlier := covered.2
      omega
  | serialRight left op right offset covered _ ih =>
    rw [advanced_serial_right covered] at ready
    exact ih ready
  | parallelLeft left op right offset covered _ ih =>
    rw [advanced_parallel_left covered, ChainTransition.newlyReady_append, verdict_newlyReady,
      List.append_nil] at ready
    exact ih ready
  | parallelRight left op right offset covered _ ih =>
    rw [advanced_parallel_right covered, ChainTransition.newlyReady_append, verdict_newlyReady,
      List.append_nil] at ready
    exact ih ready

/-- A position behind the subtree makes no leaf ready. -/
theorem newlyReady_outside (node : ChainNode) (statuses : Statuses)
    (outside : offset + node.leafCount ≤ finished) :
    (node.advanced offset finished statuses).newlyReady = [] := by
  induction node generalizing offset with
  | leaf plan => rfl
  | serial left op right ihl ihr =>
    have count : (ChainNode.serial left op right).leafCount = left.leafCount + right.leafCount := rfl
    have notLeft : ¬ (offset ≤ finished ∧ finished < offset + left.leafCount) := by omega
    rw [ChainNode.advanced, advanceInner, if_neg notLeft]
    exact ihr (by omega)
  | parallel left op right ihl ihr =>
    have count : (ChainNode.parallel left op right).leafCount = left.leafCount + right.leafCount := rfl
    have notLeft : ¬ finished < offset + left.leafCount := by omega
    have none_right : (right.advanced (offset + left.leafCount) finished statuses).newlyReady = [] :=
      ihr (by omega)
    cases op with
    | all =>
      rw [ChainNode.advanced, advanceInner_all, if_neg notLeft]
      exact none_right
    | race =>
      have none_verdict : (left.outrun right offset statuses).newlyReady = [] := by
        simp only [ChainNode.outrun]
        split_ifs <;> rfl
      rw [ChainNode.advanced, advanceInner_race, if_neg notLeft, ChainTransition.newlyReady_append,
        none_verdict, List.append_nil]
      exact none_right

/-- A leaf to cancel lies in the subtree and had not ended. -/
theorem toCancel_sound (covered : node.Covers offset finished)
    (dropped : index ∈ (node.advanced offset finished statuses).toCancel) :
    node.Covers offset index ∧ ¬ statuses.Terminal index := by
  induction covered using ChainNode.Covers.path_induction with
  | leaf plan => simp [advanced_leaf] at dropped
  | serialLeft left op right offset covered _ ih =>
    rw [advanced_serial_left covered] at dropped
    rcases List.mem_append.mp dropped with inner | aborted
    · exact (ih inner).imp_left (fun inLeft => covers_serial.mpr (.inl inLeft))
    · obtain ⟨_, _, inRight, fresh⟩ := mem_follow_toCancel.mp aborted
      exact ⟨covers_serial.mpr (.inr inRight), not_terminal_of_untouched fresh⟩
  | serialRight left op right offset covered _ ih =>
    rw [advanced_serial_right covered] at dropped
    exact (ih dropped).imp_left (fun inRight => covers_serial.mpr (.inr inRight))
  | parallelLeft left op right offset covered _ ih =>
    rw [advanced_parallel_left covered] at dropped
    rcases List.mem_append.mp dropped with inner | outrun
    · exact (ih inner).imp_left (fun inLeft => covers_parallel.mpr (.inl inLeft))
    · obtain ⟨_, isOpen, side⟩ := mem_verdict_toCancel.mp outrun
      exact ⟨covers_parallel.mpr (side.elim (fun h => .inr h.2) (fun h => .inl h.2.2)),
        not_terminal_of_open isOpen⟩
  | parallelRight left op right offset covered _ ih =>
    rw [advanced_parallel_right covered] at dropped
    rcases List.mem_append.mp dropped with inner | outrun
    · exact (ih inner).imp_left (fun inRight => covers_parallel.mpr (.inr inRight))
    · obtain ⟨_, isOpen, side⟩ := mem_verdict_toCancel.mp outrun
      exact ⟨covers_parallel.mpr (side.elim (fun h => .inr h.2) (fun h => .inl h.2.2)),
        not_terminal_of_open isOpen⟩

theorem toCancel_unfinished (statuses : Statuses) (covered : node.Covers offset finished) :
    ∀ index ∈ (node.advanced offset finished statuses).toCancel, ¬ statuses.Terminal index :=
  fun _ dropped => (toCancel_sound covered dropped).2

end Transition

/-- No race on the path to the finished leaf has been won by its other side. -/
def Contested : ChainNode → ℕ → ℕ → Statuses → Prop
  | .leaf _, _, _, _ => True
  | .serial left _ right, offset, finished, statuses =>
      if finished < offset + left.leafCount then Contested left offset finished statuses
      else Contested right (offset + left.leafCount) finished statuses
  | .parallel left op right, offset, finished, statuses =>
      if finished < offset + left.leafCount then
        (op = .race → ¬ right.Won (offset + left.leafCount) statuses) ∧
          Contested left offset finished statuses
      else
        (op = .race → ¬ left.Won offset statuses) ∧
          Contested right (offset + left.leafCount) finished statuses

/-- The invariant of chain runs, relative to the set of leaves triggered so far. -/
def Guarded (triggered : ℕ → Prop) : ChainNode → ℕ → Statuses → Prop
  | .leaf _, _, _ => True
  | .serial left op right, offset, statuses =>
      Guarded triggered left offset statuses ∧
      Guarded triggered right (offset + left.leafCount) statuses ∧
      ((∃ index, right.Covers (offset + left.leafCount) index ∧ triggered index) →
        left.Ended offset statuses ∧ (op = .andThen → left.Won offset statuses))
  | .parallel left op right, offset, statuses =>
      Guarded triggered left offset statuses ∧
      Guarded triggered right (offset + left.leafCount) statuses ∧
      (op = .race →
        (left.Won offset statuses → right.Ended (offset + left.leafCount) statuses ∧
          ¬ right.Won (offset + left.leafCount) statuses) ∧
        (right.Won (offset + left.leafCount) statuses → left.Ended offset statuses ∧
          ¬ left.Won offset statuses))

section Contested

theorem newlyReady_nodup (statuses : Statuses) (covered : node.Covers offset finished) :
    (node.advanced offset finished statuses).newlyReady.Nodup := by
  induction covered using ChainNode.Covers.path_induction with
  | leaf plan => exact List.nodup_nil
  | serialLeft left op right offset covered _ ih =>
    rw [advanced_serial_left covered]
    refine ih.append follow_newlyReady_nodup (fun index inner released => ?_)
    exact (newlyReady_sound covered inner).1.not_right
      (entries_covered (mem_follow_newlyReady.mp released).2.2.1)
  | serialRight left op right offset covered _ ih =>
    rw [advanced_serial_right covered]
    exact ih
  | parallelLeft left op right offset covered _ ih =>
    rw [advanced_parallel_left covered, ChainTransition.newlyReady_append, verdict_newlyReady,
      List.append_nil]
    exact ih
  | parallelRight left op right offset covered _ ih =>
    rw [advanced_parallel_right covered, ChainTransition.newlyReady_append, verdict_newlyReady,
      List.append_nil]
    exact ih

/-- A race drops only the side away from the finished leaf. -/
theorem verdict_right_of_contested {op : ParallelOp}
    (contest : op = .race → ¬ right.Won (offset + left.leafCount) statuses)
    (dropped : index ∈ (left.verdict op right offset statuses).toCancel) :
    left.Won offset statuses ∧ right.Covers (offset + left.leafCount) index := by
  obtain ⟨isRace, _, side⟩ := mem_verdict_toCancel.mp dropped
  exact side.resolve_right fun won => contest isRace won.2.1

theorem verdict_left_of_contested {op : ParallelOp}
    (contest : op = .race → ¬ left.Won offset statuses)
    (dropped : index ∈ (left.verdict op right offset statuses).toCancel) :
    right.Won (offset + left.leafCount) statuses ∧ left.Covers offset index := by
  obtain ⟨isRace, _, side⟩ := mem_verdict_toCancel.mp dropped
  exact (side.resolve_left fun won => contest isRace won.1).2

theorem toCancel_nodup (covered : node.Covers offset finished)
    (contested : Contested node offset finished statuses) :
    (node.advanced offset finished statuses).toCancel.Nodup := by
  induction covered using ChainNode.Covers.path_induction with
  | leaf plan => exact List.nodup_nil
  | serialLeft left op right offset covered _ ih =>
    rw [Contested, if_pos covered.2] at contested
    rw [advanced_serial_left covered]
    refine (ih contested).append follow_toCancel_nodup (fun index inner aborted => ?_)
    exact (toCancel_sound covered inner).1.not_right (mem_follow_toCancel.mp aborted).2.2.1
  | serialRight left op right offset covered _ ih =>
    rw [Contested, if_neg (not_lt_of_ge covered.1)] at contested
    rw [advanced_serial_right covered]
    exact ih contested
  | parallelLeft left op right offset covered _ ih =>
    rw [Contested, if_pos covered.2] at contested
    rw [advanced_parallel_left covered]
    refine (ih contested.2).append verdict_toCancel_nodup (fun index inner outrun => ?_)
    exact (toCancel_sound covered inner).1.not_right (verdict_right_of_contested contested.1 outrun).2
  | parallelRight left op right offset covered _ ih =>
    rw [Contested, if_neg (not_lt_of_ge covered.1)] at contested
    rw [advanced_parallel_right covered]
    refine (ih contested.2).append verdict_toCancel_nodup (fun index inner outrun => ?_)
    exact (verdict_left_of_contested contested.1 outrun).2.not_right (toCancel_sound covered inner).1

/-- No leaf is both started and cancelled by one advancement. -/
theorem newlyReady_not_toCancel (covered : node.Covers offset finished)
    (contested : Contested node offset finished statuses)
    (ready : index ∈ (node.advanced offset finished statuses).newlyReady) :
    index ∉ (node.advanced offset finished statuses).toCancel := by
  intro dropped
  induction covered using ChainNode.Covers.path_induction with
  | leaf plan => simp [advanced_leaf] at ready
  | serialLeft left op right offset covered _ ih =>
    rw [Contested, if_pos covered.2] at contested
    rw [advanced_serial_left covered] at ready dropped
    rcases List.mem_append.mp ready with inner | released <;>
      rcases List.mem_append.mp dropped with innerDrop | aborted
    · exact ih contested inner innerDrop
    · exact (newlyReady_sound covered inner).1.not_right (mem_follow_toCancel.mp aborted).2.2.1
    · exact (toCancel_sound covered innerDrop).1.not_right
        (entries_covered (mem_follow_newlyReady.mp released).2.2.1)
    · exact (mem_follow_toCancel.mp aborted).2.1 (mem_follow_newlyReady.mp released).2.1
  | serialRight left op right offset covered _ ih =>
    rw [Contested, if_neg (not_lt_of_ge covered.1)] at contested
    rw [advanced_serial_right covered] at ready dropped
    exact ih contested ready dropped
  | parallelLeft left op right offset covered _ ih =>
    rw [Contested, if_pos covered.2] at contested
    rw [advanced_parallel_left covered] at ready dropped
    rw [ChainTransition.newlyReady_append, verdict_newlyReady, List.append_nil] at ready
    rcases List.mem_append.mp dropped with inner | outrun
    · exact ih contested.2 ready inner
    · exact (newlyReady_sound covered ready).1.not_right
        (verdict_right_of_contested contested.1 outrun).2
  | parallelRight left op right offset covered _ ih =>
    rw [Contested, if_neg (not_lt_of_ge covered.1)] at contested
    rw [advanced_parallel_right covered] at ready dropped
    rw [ChainTransition.newlyReady_append, verdict_newlyReady, List.append_nil] at ready
    rcases List.mem_append.mp dropped with inner | outrun
    · exact ih contested.2 ready inner
    · exact (verdict_left_of_contested contested.1 outrun).2.not_right
        (newlyReady_sound covered ready).1

end Contested

section Block

theorem ended_congr (same : ∀ index, node.Covers offset index →
    (before.Terminal index ↔ after.Terminal index)) :
    node.Ended offset before ↔ node.Ended offset after :=
  forall₂_congr same

theorem won_congr (same : ∀ index, node.Covers offset index →
    (before.Succeeded index ↔ after.Succeeded index)) :
    node.Won offset before ↔ node.Won offset after :=
  forall₂_congr same

theorem not_ended_of_mem (covered : node.Covers offset index) (unfinished : ¬ statuses.Terminal index) :
    ¬ node.Ended offset statuses :=
  fun ended => unfinished (ended index covered)

/-- `Guarded` reads only which leaves are triggered, terminal and succeeded. -/
theorem Guarded.congr (guarded : Guarded triggered node offset before)
    (fires : ∀ index, node.Covers offset index → (triggered index ↔ triggered' index))
    (ends : ∀ index, node.Covers offset index → (before.Terminal index ↔ after.Terminal index))
    (wins : ∀ index, node.Covers offset index → (before.Succeeded index ↔ after.Succeeded index)) :
    Guarded triggered' node offset after := by
  induction node generalizing offset with
  | leaf plan => trivial
  | serial left op right ihl ihr =>
    simp only [covers_serial, or_imp, forall_and] at fires ends wins
    obtain ⟨guardedLeft, guardedRight, order⟩ := guarded
    refine ⟨ihl guardedLeft fires.1 ends.1 wins.1, ihr guardedRight fires.2 ends.2 wins.2, ?_⟩
    rintro ⟨index, covered, fired⟩
    rw [← ended_congr ends.1, ← won_congr wins.1]
    exact order ⟨index, covered, (fires.2 index covered).mpr fired⟩
  | parallel left op right ihl ihr =>
    simp only [covers_parallel, or_imp, forall_and] at fires ends wins
    obtain ⟨guardedLeft, guardedRight, race⟩ := guarded
    refine ⟨ihl guardedLeft fires.1 ends.1 wins.1, ihr guardedRight fires.2 ends.2 wins.2, ?_⟩
    rwa [← ended_congr ends.1, ← ended_congr ends.2, ← won_congr wins.1, ← won_congr wins.2]

/-- A subtree that was at most entered, and in which no leaf has succeeded, is guarded. -/
theorem guarded_of_entries
    (entered : ∀ index, node.Covers offset index → triggered index → index ∈ node.entries offset)
    (idle : ∀ index, node.Covers offset index → ¬ statuses.Succeeded index) :
    Guarded triggered node offset statuses := by
  induction node generalizing offset with
  | leaf plan => trivial
  | serial left op right ihl ihr =>
    simp only [covers_serial, or_imp, forall_and] at entered idle
    have quiet : ∀ index, right.Covers (offset + left.leafCount) index → ¬ triggered index := by
      intro index covered fired
      have entry : index ∈ left.entries offset := entered.2 index covered fired
      exact (entries_covered entry).not_right covered
    refine ⟨ihl entered.1 idle.1,
      ihr (fun index covered fired => (quiet index covered fired).elim) idle.2, ?_⟩
    rintro ⟨index, covered, fired⟩
    exact (quiet index covered fired).elim
  | parallel left op right ihl ihr =>
    simp only [covers_parallel, or_imp, forall_and] at entered idle
    refine ⟨ihl (fun index covered fired => ?_) idle.1, ihr (fun index covered fired => ?_) idle.2, ?_⟩
    · refine (List.mem_append.mp (entered.1 index covered fired)).resolve_right ?_
      exact fun inRight => covered.not_right (entries_covered inRight)
    · refine (List.mem_append.mp (entered.2 index covered fired)).resolve_left ?_
      exact fun inLeft => (entries_covered inLeft).not_right covered
    · intro _
      exact ⟨fun won => (idle.1 _ (left.covers_first offset) (won _ (left.covers_first offset))).elim,
        fun won => (idle.2 _ (right.covers_first _) (won _ (right.covers_first _))).elim⟩

/-- Ending every leaf of a subtree without new successes keeps it guarded. -/
theorem Guarded.of_ended (guarded : Guarded triggered node offset before)
    (ended : node.Ended offset after)
    (wins : ∀ index, node.Covers offset index → (before.Succeeded index ↔ after.Succeeded index)) :
    Guarded triggered node offset after := by
  induction node generalizing offset with
  | leaf plan => trivial
  | serial left op right ihl ihr =>
    simp only [covers_serial, or_imp, forall_and] at wins
    obtain ⟨guardedLeft, guardedRight, order⟩ := guarded
    obtain ⟨endedLeft, endedRight⟩ := ended_serial.mp ended
    refine ⟨ihl guardedLeft endedLeft wins.1, ihr guardedRight endedRight wins.2, fun fired => ?_⟩
    exact ⟨endedLeft, fun isThen => (won_congr wins.1).mp ((order fired).2 isThen)⟩
  | parallel left op right ihl ihr =>
    simp only [covers_parallel, or_imp, forall_and] at wins
    obtain ⟨guardedLeft, guardedRight, race⟩ := guarded
    obtain ⟨endedLeft, endedRight⟩ := ended_parallel.mp ended
    refine ⟨ihl guardedLeft endedLeft wins.1, ihr guardedRight endedRight wins.2, fun isRace => ?_⟩
    rw [← won_congr wins.1, ← won_congr wins.2]
    exact ⟨fun won => ⟨endedRight, ((race isRace).1 won).2⟩, fun won => ⟨endedLeft, ((race isRace).2 won).2⟩⟩

end Block

section Step

/-- Cancelling leaves that had not ended ends exactly those and adds no success. -/
theorem terminal_setAll {dropped : List ℕ} :
    (statuses.setAll dropped .cancelled).Terminal index ↔ index ∈ dropped ∨ statuses.Terminal index := by
  by_cases member : index ∈ dropped
  · simp [Statuses.Terminal, Statuses.setAll, member, LeafStatus.isTerminal]
  · simp [Statuses.Terminal, Statuses.setAll, member]

theorem succeeded_setAll {dropped : List ℕ} (unfinished : index ∈ dropped → ¬ statuses.Terminal index) :
    (statuses.setAll dropped .cancelled).Succeeded index ↔ statuses.Succeeded index := by
  by_cases member : index ∈ dropped
  · have failed : ¬ statuses.Succeeded index := fun succeeded => unfinished member succeeded.terminal
    exact iff_of_false (by simp [Statuses.Succeeded, Statuses.setAll, member]) failed
  · simp [Statuses.Succeeded, Statuses.setAll, member]

/-- A triggered leaf that had not ended is recorded as finished; nothing else changes. -/
structure Finishes (triggered : ℕ → Prop) (finished : ℕ) (before recorded : Statuses) : Prop where
  fired : triggered finished
  unfinished : ¬ before.Terminal finished
  same : ∀ index, index ≠ finished → recorded index = before index

variable {recorded : Statuses}

theorem Finishes.elsewhere (step : Finishes triggered finished before recorded)
    (apart : ¬ node.Covers offset finished) :
    ∀ index, node.Covers offset index → recorded index = before index :=
  fun index inside => step.same index (fun equal => apart (equal ▸ inside))

theorem won_of_same (same : ∀ index, node.Covers offset index → recorded index = before index) :
    node.Won offset recorded ↔ node.Won offset before :=
  won_congr fun index inside => by rw [Statuses.Succeeded, Statuses.Succeeded, same index inside]

theorem ended_of_same (same : ∀ index, node.Covers offset index → recorded index = before index) :
    node.Ended offset recorded ↔ node.Ended offset before :=
  ended_congr fun index inside => by rw [Statuses.Terminal, Statuses.Terminal, same index inside]

theorem Guarded.contested (guarded : Guarded triggered node offset before)
    (step : Finishes triggered finished before recorded) (covered : node.Covers offset finished) :
    Contested node offset finished recorded := by
  induction covered using ChainNode.Covers.path_induction with
  | leaf plan => trivial
  | serialLeft left op right offset covered _ ih =>
    rw [Contested, if_pos covered.2]
    exact ih guarded.1
  | serialRight left op right offset covered _ ih =>
    rw [Contested, if_neg (not_lt_of_ge covered.1)]
    exact ih guarded.2.1
  | parallelLeft left op right offset covered _ ih =>
    rw [Contested, if_pos covered.2]
    refine ⟨fun isRace won => ?_, ih guarded.1⟩
    have wonBefore := (won_of_same (step.elsewhere covered.not_right)).mp won
    exact step.unfinished (((guarded.2.2 isRace).2 wonBefore).1 _ covered)
  | parallelRight left op right offset covered _ ih =>
    rw [Contested, if_neg (not_lt_of_ge covered.1)]
    refine ⟨fun isRace won => ?_, ih guarded.2.1⟩
    have apart : ¬ left.Covers offset finished := fun inLeft => inLeft.not_right covered
    have wonBefore := (won_of_same (step.elsewhere apart)).mp won
    exact step.unfinished (((guarded.2.2 isRace).1 wonBefore).1 _ covered)

/-- The table and the triggered set a transition leaves behind. -/
def ChainTransition.settle (transition : ChainTransition) (recorded : Statuses) : Statuses :=
  recorded.setAll transition.toCancel .cancelled

def ChainTransition.fires (transition : ChainTransition) (triggered : ℕ → Prop) (index : ℕ) : Prop :=
  triggered index ∨ index ∈ transition.newlyReady

variable {transition extra : ChainTransition}

/-- Requests about other positions do not matter to a subtree. -/
theorem Guarded.extend
    (guarded : Guarded (transition.fires triggered) node offset (transition.settle recorded))
    (readyApart : ∀ index ∈ extra.newlyReady, ¬ node.Covers offset index)
    (cancelApart : ∀ index ∈ extra.toCancel, ¬ node.Covers offset index) :
    Guarded ((transition ++ extra).fires triggered) node offset
      ((transition ++ extra).settle recorded) := by
  have sameCancel : ∀ index, node.Covers offset index →
      (transition ++ extra).settle recorded index = transition.settle recorded index := by
    intro index covered
    have apart : index ∉ extra.toCancel := fun member => cancelApart index member covered
    simp [ChainTransition.settle, Statuses.setAll, apart]
  refine guarded.congr (fun index covered => ?_) (fun index covered => ?_) (fun index covered => ?_)
  · have apart : index ∉ extra.newlyReady := fun member => readyApart index member covered
    simp [ChainTransition.fires, apart]
  · rw [Statuses.Terminal, Statuses.Terminal, sameCancel index covered]
  · rw [Statuses.Succeeded, Statuses.Succeeded, sameCancel index covered]

/-- A subtree away from the finished leaf is left alone by a transition, or ended as a whole. -/
theorem Guarded.bystander (guarded : Guarded triggered node offset before)
    (same : ∀ index, node.Covers offset index → recorded index = before index)
    (readyApart : ∀ index ∈ transition.newlyReady, ¬ node.Covers offset index)
    (sound : ∀ index ∈ transition.toCancel, ¬ recorded.Terminal index)
    (spared : (∀ index ∈ transition.toCancel, ¬ node.Covers offset index) ∨
      node.Ended offset (transition.settle recorded)) :
    Guarded (transition.fires triggered) node offset (transition.settle recorded) := by
  have wins : ∀ index, node.Covers offset index →
      (before.Succeeded index ↔ (transition.settle recorded).Succeeded index) := by
    intro index covered
    rw [ChainTransition.settle, succeeded_setAll (sound index), Statuses.Succeeded,
      Statuses.Succeeded, same index covered]
  have fires : ∀ index, node.Covers offset index →
      (triggered index ↔ transition.fires triggered index) := by
    intro index covered
    have apart : index ∉ transition.newlyReady := fun member => readyApart index member covered
    simp [ChainTransition.fires, apart]
  rcases spared with cancelApart | ended
  · refine guarded.congr fires (fun index covered => ?_) wins
    have apart : index ∉ transition.toCancel := fun member => cancelApart index member covered
    rw [ChainTransition.settle, terminal_setAll, Statuses.Terminal, Statuses.Terminal,
      same index covered]
    simp [apart]
  · exact (guarded.of_ended ended wins).congr fires (fun _ _ => Iff.rfl) (fun _ _ => Iff.rfl)

/-- Cancelling every open leaf of a subtree ends it. -/
theorem ended_settle (present : ∀ index, node.Covers offset index → (recorded index).isSome)
    (wide : ∀ index, node.Covers offset index → recorded.open index = true →
      index ∈ transition.toCancel) : node.Ended offset (transition.settle recorded) := by
  intro index covered
  rw [ChainTransition.settle, terminal_setAll]
  by_cases ended : recorded.Terminal index
  · exact .inr ended
  · exact .inl (wide index covered (open_of_not_terminal (present index covered) ended))

theorem won_of_settle (won : node.Won offset (transition.settle recorded))
    (sound : ∀ index ∈ transition.toCancel, ¬ recorded.Terminal index) : node.Won offset recorded :=
  fun index covered => (succeeded_setAll (sound index)).mp (won index covered)

theorem ChainNode.Won.settle (won : node.Won offset recorded)
    (sound : ∀ index ∈ transition.toCancel, ¬ recorded.Terminal index) :
    node.Won offset (transition.settle recorded) :=
  fun index covered => (succeeded_setAll (sound index)).mpr (won index covered)

theorem ChainNode.Ended.settle (ended : node.Ended offset recorded) :
    node.Ended offset (transition.settle recorded) :=
  fun index covered => terminal_setAll.mpr (.inr (ended index covered))

/-- The invariant after the advancement of a subtree that contains the finished leaf. -/
def Kept (triggered : ℕ → Prop) (node : ChainNode) (offset finished : ℕ) (recorded : Statuses) :
    Prop :=
  Guarded ((node.advanced offset finished recorded).fires triggered) node offset
    ((node.advanced offset finished recorded).settle recorded)

variable {op : SerialOp} {par : ParallelOp}

private theorem kept_serial_left (step : Finishes triggered finished before recorded)
    (covered : left.Covers offset finished)
    (guarded : Guarded triggered (.serial left op right) offset before)
    (idle : ∀ index, right.Covers (offset + left.leafCount) index → ¬ triggered index →
      ¬ before.Succeeded index)
    (kept : Kept triggered left offset finished recorded) :
    Kept triggered (.serial left op right) offset finished recorded := by
  have whole : (ChainNode.serial left op right).Covers offset finished :=
    covers_serial.mpr (.inl covered)
  have sound := toCancel_unfinished recorded whole
  have quiet : ∀ index, right.Covers (offset + left.leafCount) index → ¬ triggered index :=
    fun index inRight fired =>
      step.unfinished ((guarded.2.2 ⟨index, inRight, fired⟩).1 _ covered)
  have released : ∀ index, right.Covers (offset + left.leafCount) index →
      ((ChainNode.serial left op right).advanced offset finished recorded).fires triggered index →
      index ∈ (left.follow op right offset recorded).newlyReady := by
    intro index inRight fires
    have ready := fires.resolve_left (quiet index inRight)
    rw [advanced_serial_left covered] at ready
    exact (List.mem_append.mp ready).resolve_left
      fun inner => (newlyReady_sound covered inner).1.not_right inRight
  refine ⟨?_, ?_, ?_⟩
  · rw [advanced_serial_left covered]
    refine kept.extend (fun index member inLeft => ?_) (fun index member inLeft => ?_)
    · exact inLeft.not_right (entries_covered (mem_follow_newlyReady.mp member).2.2.1)
    · exact inLeft.not_right (mem_follow_toCancel.mp member).2.2.1
  · refine guarded_of_entries (fun index inRight fires => ?_) (fun index inRight succeeded => ?_)
    · exact (mem_follow_newlyReady.mp (released index inRight fires)).2.2.1
    · rw [ChainTransition.settle, succeeded_setAll (sound index), Statuses.Succeeded,
        step.elsewhere covered.not_right index inRight] at succeeded
      exact idle index inRight (quiet index inRight) succeeded
  · rintro ⟨index, inRight, fires⟩
    obtain ⟨ended, mode, _⟩ := mem_follow_newlyReady.mp (released index inRight fires)
    refine ⟨ended.settle, fun isThen => (mode.resolve_left ?_).settle sound⟩
    simp [isThen]

private theorem kept_serial_right (step : Finishes triggered finished before recorded)
    (covered : right.Covers (offset + left.leafCount) finished)
    (guarded : Guarded triggered (.serial left op right) offset before)
    (kept : Kept triggered right (offset + left.leafCount) finished recorded) :
    Kept triggered (.serial left op right) offset finished recorded := by
  have sound := toCancel_unfinished recorded covered
  have apart : ¬ left.Covers offset finished := fun inLeft => inLeft.not_right covered
  have sameLeft := step.elsewhere apart
  obtain ⟨endedLeft, wonLeft⟩ := guarded.2.2 ⟨finished, covered, step.fired⟩
  rw [Kept, advanced_serial_right covered]
  refine ⟨?_, kept, fun _ => ⟨((ended_of_same sameLeft).mpr endedLeft).settle, fun isThen => ?_⟩⟩
  · refine guarded.1.bystander sameLeft (fun index member inLeft => ?_) sound
      (.inl fun index member inLeft => ?_)
    · exact inLeft.not_right (newlyReady_sound covered member).1
    · exact inLeft.not_right (toCancel_sound covered member).1
  · exact ((won_of_same sameLeft).mpr (wonLeft isThen)).settle sound

private theorem kept_parallel_left (step : Finishes triggered finished before recorded)
    (covered : left.Covers offset finished)
    (guarded : Guarded triggered (.parallel left par right) offset before)
    (present : ∀ index, right.Covers (offset + left.leafCount) index → (recorded index).isSome)
    (contest : par = .race → ¬ right.Won (offset + left.leafCount) recorded)
    (kept : Kept triggered left offset finished recorded) :
    Kept triggered (.parallel left par right) offset finished recorded := by
  have whole : (ChainNode.parallel left par right).Covers offset finished :=
    covers_parallel.mpr (.inl covered)
  have sound := toCancel_unfinished recorded whole
  have swept : par = .race → left.Won offset recorded → right.Ended (offset + left.leafCount)
      (((ChainNode.parallel left par right).advanced offset finished recorded).settle recorded) := by
    intro isRace won
    refine ended_settle present (fun index inRight isOpen => ?_)
    rw [advanced_parallel_left covered]
    exact List.mem_append_right _ (mem_verdict_toCancel.mpr ⟨isRace, isOpen, .inl ⟨won, inRight⟩⟩)
  refine ⟨?_, ?_, fun isRace => ⟨fun won => ?_, fun won => ?_⟩⟩
  · rw [advanced_parallel_left covered]
    refine kept.extend (by simp [verdict_newlyReady]) (fun index member inLeft => ?_)
    exact inLeft.not_right (verdict_right_of_contested contest member).2
  · refine guarded.2.1.bystander (step.elsewhere covered.not_right)
      (fun index member inRight => ?_) sound ?_
    · rw [advanced_parallel_left covered, ChainTransition.newlyReady_append, verdict_newlyReady,
        List.append_nil] at member
      exact (newlyReady_sound covered member).1.not_right inRight
    · by_cases won : par = .race ∧ left.Won offset recorded
      · exact .inr (swept won.1 won.2)
      · refine .inl (fun index member inRight => ?_)
        rw [advanced_parallel_left covered] at member
        rcases List.mem_append.mp member with inner | outrun
        · exact (toCancel_sound covered inner).1.not_right inRight
        · exact won ⟨(mem_verdict_toCancel.mp outrun).1, (verdict_right_of_contested contest outrun).1⟩
  · exact ⟨swept isRace (won_of_settle won sound),
      fun wonRight => contest isRace (won_of_settle wonRight sound)⟩
  · exact (contest isRace (won_of_settle won sound)).elim

private theorem kept_parallel_right (step : Finishes triggered finished before recorded)
    (covered : right.Covers (offset + left.leafCount) finished)
    (guarded : Guarded triggered (.parallel left par right) offset before)
    (present : ∀ index, left.Covers offset index → (recorded index).isSome)
    (contest : par = .race → ¬ left.Won offset recorded)
    (kept : Kept triggered right (offset + left.leafCount) finished recorded) :
    Kept triggered (.parallel left par right) offset finished recorded := by
  have whole : (ChainNode.parallel left par right).Covers offset finished :=
    covers_parallel.mpr (.inr covered)
  have sound := toCancel_unfinished recorded whole
  have swept : par = .race → right.Won (offset + left.leafCount) recorded → left.Ended offset
      (((ChainNode.parallel left par right).advanced offset finished recorded).settle recorded) := by
    intro isRace won
    refine ended_settle present (fun index inLeft isOpen => ?_)
    rw [advanced_parallel_right covered]
    exact List.mem_append_right _ (mem_verdict_toCancel.mpr
      ⟨isRace, isOpen, .inr ⟨contest isRace, won, inLeft⟩⟩)
  refine ⟨?_, ?_, fun isRace => ⟨fun won => ?_, fun won => ?_⟩⟩
  · refine guarded.1.bystander (step.elsewhere fun inLeft => inLeft.not_right covered)
      (fun index member inLeft => ?_) sound ?_
    · rw [advanced_parallel_right covered, ChainTransition.newlyReady_append, verdict_newlyReady,
        List.append_nil] at member
      exact inLeft.not_right (newlyReady_sound covered member).1
    · by_cases won : par = .race ∧ right.Won (offset + left.leafCount) recorded
      · exact .inr (swept won.1 won.2)
      · refine .inl (fun index member inLeft => ?_)
        rw [advanced_parallel_right covered] at member
        rcases List.mem_append.mp member with inner | outrun
        · exact inLeft.not_right (toCancel_sound covered inner).1
        · exact won ⟨(mem_verdict_toCancel.mp outrun).1, (verdict_left_of_contested contest outrun).1⟩
  · rw [advanced_parallel_right covered]
    refine kept.extend (by simp [verdict_newlyReady]) (fun index member inRight => ?_)
    exact (verdict_left_of_contested contest member).2.not_right inRight
  · exact (contest isRace (won_of_settle won sound)).elim
  · exact ⟨swept isRace (won_of_settle won sound),
      fun wonLeft => contest isRace (won_of_settle wonLeft sound)⟩

/-- One advancement keeps the invariant, provided only triggered leaves have succeeded before. -/
theorem Guarded.advance (guarded : Guarded triggered node offset before)
    (step : Finishes triggered finished before recorded) (covered : node.Covers offset finished)
    (present : ∀ index, node.Covers offset index → (recorded index).isSome)
    (idle : ∀ index, node.Covers offset index → ¬ triggered index → ¬ before.Succeeded index) :
    Kept triggered node offset finished recorded := by
  have contested := guarded.contested step covered
  induction covered using ChainNode.Covers.path_induction with
  | leaf plan => trivial
  | serialLeft left op right offset covered _ ih =>
    rw [Contested, if_pos covered.2] at contested
    simp only [covers_serial, or_imp, forall_and] at present idle
    exact kept_serial_left step covered guarded idle.2 (ih guarded.1 present.1 idle.1 contested)
  | serialRight left op right offset covered _ ih =>
    rw [Contested, if_neg (not_lt_of_ge covered.1)] at contested
    simp only [covers_serial, or_imp, forall_and] at present idle
    exact kept_serial_right step covered guarded (ih guarded.2.1 present.2 idle.2 contested)
  | parallelLeft left op right offset covered _ ih =>
    rw [Contested, if_pos covered.2] at contested
    simp only [covers_parallel, or_imp, forall_and] at present idle
    exact kept_parallel_left step covered guarded present.2 contested.1
      (ih guarded.1 present.1 idle.1 contested.2)
  | parallelRight left op right offset covered _ ih =>
    rw [Contested, if_neg (not_lt_of_ge covered.1)] at contested
    simp only [covers_parallel, or_imp, forall_and] at present idle
    exact kept_parallel_right step covered guarded present.1 contested.1
      (ih guarded.2.1 present.2 idle.2 contested.2)

end Step

end CueShell
