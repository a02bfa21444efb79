import CueShell.Model.Parser.Resolver
import CueShell.Proofs.ChainRuns

/-! # Chains do not get stuck unless a cancellation ends a left operand

One advancement releases or drops the right operand of a serial node when the left operand has
ended in the table it is given. The leaves it cancels are stored afterwards, so a left operand that
ends only through these cancellations is not noticed. `closes` names this situation; runs without
it never leave a leaf pending.
-/

namespace CueShell

variable {node left right : ChainNode} {run : ChainRun} {offset index finished : ℕ}
variable {statuses before after recorded : Statuses} {transition extra : ChainTransition}

/-- Ending leaf `finished` ends the subtree only together with the leaves it cancels. -/
def ChainNode.closes : ChainNode → ℕ → ℕ → Statuses → Bool
  | .leaf _, _, _, _ => false
  | .serial left op right, offset, finished, statuses =>
      if finished < offset + left.leafCount then
        op == .andThen && allLeavesTerminal left offset statuses &&
          !allLeavesSucceeded left offset statuses &&
          !allLeavesTerminal right (offset + left.leafCount) statuses
      else right.closes (offset + left.leafCount) finished statuses
  | .parallel left op right, offset, finished, statuses =>
      let rightOffset := offset + left.leafCount
      if finished < rightOffset then
        (op == .race && allLeavesSucceeded left offset statuses &&
          !allLeavesTerminal right rightOffset statuses) ||
        (left.closes offset finished statuses && allLeavesTerminal right rightOffset statuses)
      else
        (op == .race && allLeavesSucceeded right rightOffset statuses &&
          !allLeavesTerminal left offset statuses) ||
        (right.closes rightOffset finished statuses && allLeavesTerminal left offset statuses)

/-- No serial node above the finished leaf has its left operand ended by cancellations. -/
def ChainNode.prompt : ChainNode → ℕ → ℕ → Statuses → Bool
  | .leaf _, _, _, _ => true
  | .serial left _ right, offset, finished, statuses =>
      if finished < offset + left.leafCount then
        !left.closes offset finished statuses && left.prompt offset finished statuses
      else right.prompt (offset + left.leafCount) finished statuses
  | .parallel left _ right, offset, finished, statuses =>
      if finished < offset + left.leafCount then left.prompt offset finished statuses
      else right.prompt (offset + left.leafCount) finished statuses

/-- Every leaf of the subtree is pending. -/
def ChainNode.Fresh (node : ChainNode) (offset : ℕ) (statuses : Statuses) : Prop :=
  ∀ index, node.Covers offset index → statuses index = some .pending

/-- Every leaf has been entered that no serial predecessor holds back. -/
def Live : ChainNode → ℕ → Statuses → Prop
  | .leaf _, offset, statuses => statuses offset ≠ some .pending
  | .serial left _ right, offset, statuses =>
      Live left offset statuses ∧
      (left.Ended offset statuses → Live right (offset + left.leafCount) statuses) ∧
      (¬ left.Ended offset statuses → right.Fresh (offset + left.leafCount) statuses)
  | .parallel left _ right, offset, statuses =>
      Live left offset statuses ∧ Live right (offset + left.leafCount) statuses

section Live

theorem fresh_serial {op : SerialOp} : (ChainNode.serial left op right).Fresh offset statuses ↔
    left.Fresh offset statuses ∧ right.Fresh (offset + left.leafCount) statuses := by
  simp only [ChainNode.Fresh, covers_serial, or_imp, forall_and]

theorem fresh_parallel {op : ParallelOp} :
    (ChainNode.parallel left op right).Fresh offset statuses ↔
      left.Fresh offset statuses ∧ right.Fresh (offset + left.leafCount) statuses := by
  simp only [ChainNode.Fresh, covers_parallel, or_imp, forall_and]

theorem ChainNode.Fresh.not_ended (fresh : node.Fresh offset statuses) :
    ¬ node.Ended offset statuses := by
  intro ended
  have first := ended offset (node.covers_first offset)
  simp [Statuses.Terminal, fresh offset (node.covers_first offset), LeafStatus.isTerminal] at first

theorem Live.congr (live : Live node offset before)
    (same : ∀ index, node.Covers offset index → after index = before index) :
    Live node offset after := by
  induction node generalizing offset with
  | leaf plan =>
    rw [Live, same offset (ChainNode.covers_first _ _)]
    exact live
  | serial left op right ihl ihr =>
    simp only [covers_serial, or_imp, forall_and] at same
    obtain ⟨liveLeft, released, held⟩ := live
    have endedIff : left.Ended offset after ↔ left.Ended offset before := ended_of_same same.1
    refine ⟨ihl liveLeft same.1, fun ended => ihr (released (endedIff.mp ended)) same.2,
      fun unfinished index covered => ?_⟩
    rw [same.2 index covered]
    exact held (fun ended => unfinished (endedIff.mpr ended)) index covered
  | parallel left op right ihl ihr =>
    simp only [covers_parallel, or_imp, forall_and] at same
    exact ⟨ihl live.1 same.1, ihr live.2 same.2⟩

theorem live_of_ended (ended : node.Ended offset statuses) : Live node offset statuses := by
  induction node generalizing offset with
  | leaf plan =>
    intro pending
    have first := ended offset (ChainNode.covers_first _ _)
    simp [Statuses.Terminal, pending, LeafStatus.isTerminal] at first
  | serial left op right ihl ihr =>
    obtain ⟨endedLeft, endedRight⟩ := ended_serial.mp ended
    exact ⟨ihl endedLeft, fun _ => ihr endedRight, fun unfinished => (unfinished endedLeft).elim⟩
  | parallel left op right ihl ihr =>
    obtain ⟨endedLeft, endedRight⟩ := ended_parallel.mp ended
    exact ⟨ihl endedLeft, ihr endedRight⟩

/-- A subtree whose entries have just been started is live. -/
theorem live_of_entered
    (entered : ∀ index ∈ node.entries offset, statuses index = some .running)
    (rest : ∀ index, node.Covers offset index → index ∉ node.entries offset →
      statuses index = some .pending) : Live node offset statuses := by
  induction node generalizing offset with
  | leaf plan =>
    rw [Live, entered offset (List.mem_singleton_self offset)]
    simp
  | serial left op right ihl ihr =>
    simp only [covers_serial, or_imp, forall_and] at rest
    have unfinished : ¬ left.Ended offset statuses := by
      intro ended
      obtain ⟨first, member⟩ := List.exists_mem_of_ne_nil _ (entries_ne_nil left offset)
      have terminal := ended first (entries_covered member)
      simp [Statuses.Terminal, entered first member, LeafStatus.isTerminal] at terminal
    refine ⟨ihl entered rest.1, fun ended => (unfinished ended).elim, fun _ index covered => ?_⟩
    refine rest.2 index covered fun member => ?_
    have inLeft : index ∈ left.entries offset := member
    exact (entries_covered inLeft).not_right covered
  | parallel left op right ihl ihr =>
    simp only [covers_parallel, or_imp, forall_and, ChainNode.entries, List.mem_append] at entered rest
    refine ⟨ihl entered.1 fun index covered absent => rest.1 index covered ?_,
      ihr entered.2 fun index covered absent => rest.2 index covered ?_⟩
    · exact fun member => member.elim absent fun inRight => covered.not_right (entries_covered inRight)
    · exact fun member => member.elim (fun inLeft => (entries_covered inLeft).not_right covered) absent

/-- A live subtree without running leaves has ended. -/
theorem Live.ended (live : Live node offset statuses)
    (present : ∀ index, node.Covers offset index → (statuses index).isSome)
    (quiet : ∀ index, node.Covers offset index → statuses index ≠ some .running) :
    node.Ended offset statuses := by
  induction node generalizing offset with
  | leaf plan =>
    intro index covered
    have here := present index covered
    have still := quiet index covered
    rw [covers_leaf] at covered
    subst covered
    have entered : statuses index ≠ some .pending := live
    cases status : statuses index with
    | none => simp [status] at here
    | some final => cases final <;> simp_all [Statuses.Terminal, LeafStatus.isTerminal]
  | serial left op right ihl ihr =>
    simp only [covers_serial, or_imp, forall_and] at present quiet
    have endedLeft := ihl live.1 present.1 quiet.1
    exact ended_serial.mpr ⟨endedLeft, ihr (live.2.1 endedLeft) present.2 quiet.2⟩
  | parallel left op right ihl ihr =>
    simp only [covers_parallel, or_imp, forall_and] at present quiet
    exact ended_parallel.mpr ⟨ihl live.1 present.1 quiet.1, ihr live.2 present.2 quiet.2⟩

end Live

section Step

/-- The table after the leaves to cancel are stored and the ready leaves are running. -/
def ChainTransition.launched (transition : ChainTransition) (recorded : Statuses) : Statuses :=
  (transition.settle recorded).setAll transition.newlyReady .running

theorem launched_apart (ready : index ∉ transition.newlyReady)
    (dropped : index ∉ transition.toCancel) : transition.launched recorded index = recorded index := by
  simp [ChainTransition.launched, ChainTransition.settle, Statuses.setAll, ready, dropped]

theorem launched_extend (readyApart : index ∉ extra.newlyReady) (cancelApart : index ∉ extra.toCancel) :
    (transition ++ extra).launched recorded index = transition.launched recorded index := by
  simp [ChainTransition.launched, ChainTransition.settle, Statuses.setAll, readyApart, cancelApart]

theorem settle_extend (cancelApart : index ∉ extra.toCancel) :
    (transition ++ extra).settle recorded index = transition.settle recorded index := by
  simp [ChainTransition.settle, Statuses.setAll, cancelApart]

/-- Running leaves have not ended. -/
theorem ended_of_launched (ended : node.Ended offset (transition.launched recorded)) :
    node.Ended offset (transition.settle recorded) := by
  intro index covered
  have terminal := ended index covered
  by_cases ready : index ∈ transition.newlyReady
  · simp [Statuses.Terminal, ChainTransition.launched, Statuses.setAll, ready,
      LeafStatus.isTerminal] at terminal
  · simpa [Statuses.Terminal, ChainTransition.launched, Statuses.setAll, ready] using terminal

/-- A subtree that had ended is left alone by its own advancement. -/
theorem launched_of_ended (covered : node.Covers offset finished)
    (ended : node.Ended offset recorded) :
    node.Ended offset ((node.advanced offset finished recorded).launched recorded) := by
  intro index inside
  have final := ended index inside
  rw [Statuses.Terminal, launched_apart]
  · exact final
  · exact fun ready => not_terminal_of_untouched (newlyReady_sound covered ready).2 final
  · exact fun dropped => (toCancel_sound covered dropped).2 final

/-- What the advancement of a subtree around the finished leaf achieves. -/
structure Progress (node : ChainNode) (offset finished : ℕ) (recorded : Statuses) : Prop where
  live : Live node offset ((node.advanced offset finished recorded).launched recorded)
  noticed : node.Ended offset ((node.advanced offset finished recorded).settle recorded) →
    node.Ended offset recorded ∨ node.closes offset finished recorded = true

variable {op : SerialOp} {par : ParallelOp}

theorem fresh_untouched (fresh : node.Fresh offset statuses) (covered : node.Covers offset index) :
    untouched statuses index = true :=
  untouched_iff.mpr (.inl (fresh index covered))

private theorem progress_serial_left (covered : left.Covers offset finished)
    (fresh : right.Fresh (offset + left.leafCount) recorded)
    (prompt : left.closes offset finished recorded = false)
    (inner : Progress left offset finished recorded) :
    Progress (.serial left op right) offset finished recorded := by
  have readyLeft : ∀ index, right.Covers (offset + left.leafCount) index →
      index ∉ (left.advanced offset finished recorded).newlyReady :=
    fun index inRight ready => (newlyReady_sound covered ready).1.not_right inRight
  have dropLeft : ∀ index, right.Covers (offset + left.leafCount) index →
      index ∉ (left.advanced offset finished recorded).toCancel :=
    fun index inRight dropped => (toCancel_sound covered dropped).1.not_right inRight
  have readyRight : ∀ index, left.Covers offset index →
      index ∉ (left.follow op right offset recorded).newlyReady :=
    fun index inLeft ready =>
      inLeft.not_right (entries_covered (mem_follow_newlyReady.mp ready).2.2.1)
  have dropRight : ∀ index, left.Covers offset index →
      index ∉ (left.follow op right offset recorded).toCancel :=
    fun index inLeft dropped => inLeft.not_right (mem_follow_toCancel.mp dropped).2.2.1
  have sameLeft : ∀ index, left.Covers offset index →
      ((ChainNode.serial left op right).advanced offset finished recorded).launched recorded index =
        (left.advanced offset finished recorded).launched recorded index := by
    intro index inLeft
    rw [advanced_serial_left covered]
    exact launched_extend (readyRight index inLeft) (dropRight index inLeft)
  refine ⟨⟨inner.live.congr sameLeft, fun ended => ?_, fun unfinished index inRight => ?_⟩,
    fun ended => ?_⟩
  · have endedLeft : left.Ended offset recorded := by
      have settled := ended_of_launched ((ended_of_same sameLeft).mp ended)
      exact (inner.noticed settled).resolve_right (by simp [prompt])
    rw [advanced_serial_left covered]
    by_cases mode : op = .always ∨ left.Won offset recorded
    · refine live_of_entered (fun index entry => ?_) (fun index inRight absent => ?_)
      · have ready := mem_follow_newlyReady.mpr
          ⟨endedLeft, mode, entry, fresh_untouched fresh (entries_covered entry)⟩
        simp [ChainTransition.launched, Statuses.setAll, ready]
      · rw [launched_apart]
        · exact fresh index inRight
        · exact fun ready => (List.mem_append.mp ready).elim (readyLeft index inRight)
            fun released => absent (mem_follow_newlyReady.mp released).2.2.1
        · exact fun dropped => (List.mem_append.mp dropped).elim (dropLeft index inRight)
            fun aborted => (mem_follow_toCancel.mp aborted).2.1 mode
    · refine live_of_ended fun index inRight => ?_
      have dropped := mem_follow_toCancel.mpr
        ⟨endedLeft, mode, inRight, fresh_untouched fresh inRight⟩
      have notReady : index ∉ (left.follow op right offset recorded).newlyReady :=
        fun ready => mode (mem_follow_newlyReady.mp ready).2.1
      simp [Statuses.Terminal, ChainTransition.launched, ChainTransition.settle, Statuses.setAll,
        notReady, readyLeft index inRight, dropped, LeafStatus.isTerminal]
  · have open' : ¬ left.Ended offset recorded := fun ended =>
      unfinished ((ended_of_same sameLeft).mpr (launched_of_ended covered ended))
    rw [advanced_serial_left covered, launched_apart]
    · exact fresh index inRight
    · exact fun ready => (List.mem_append.mp ready).elim (readyLeft index inRight)
        fun released => open' (mem_follow_newlyReady.mp released).1
    · exact fun dropped => (List.mem_append.mp dropped).elim (dropLeft index inRight)
        fun aborted => open' (mem_follow_toCancel.mp aborted).1
  · have first := right.covers_first (offset + left.leafCount)
    have terminal := (ended_serial.mp ended).2 _ first
    rw [advanced_serial_left covered, ChainTransition.settle, terminal_setAll] at terminal
    have dropped := terminal.resolve_right (not_terminal_of_untouched (fresh_untouched fresh first))
    obtain ⟨endedLeft, mode, _, _⟩ := mem_follow_toCancel.mp
      ((List.mem_append.mp dropped).resolve_left (dropLeft _ first))
    obtain ⟨notAlways, lost⟩ := not_or.mp mode
    have isThen : op = .andThen := by
      cases op with
      | andThen => rfl
      | always => exact (notAlways rfl).elim
    right
    simp [ChainNode.closes, covered.2, isThen, endedLeft, lost, fresh.not_ended]

private theorem progress_serial_right (covered : right.Covers (offset + left.leafCount) finished)
    (endedLeft : left.Ended offset recorded)
    (inner : Progress right (offset + left.leafCount) finished recorded) :
    Progress (.serial left op right) offset finished recorded := by
  have sameLeft : ∀ index, left.Covers offset index →
      (right.advanced (offset + left.leafCount) finished recorded).launched recorded index =
        recorded index := by
    intro index inLeft
    refine launched_apart (fun ready => ?_) (fun dropped => ?_)
    · exact inLeft.not_right (newlyReady_sound covered ready).1
    · exact inLeft.not_right (toCancel_sound covered dropped).1
  have stillEnded := (ended_of_same sameLeft).mpr endedLeft
  constructor <;> rw [advanced_serial_right covered]
  · exact ⟨live_of_ended stillEnded, fun _ => inner.live, fun unfinished => (unfinished stillEnded).elim⟩
  · intro ended
    refine (inner.noticed (ended_serial.mp ended).2).imp
      (fun endedRight => ended_serial.mpr ⟨endedLeft, endedRight⟩) (fun closes => ?_)
    rwa [ChainNode.closes, if_neg (not_lt_of_ge covered.1)]

private theorem progress_parallel_left (covered : left.Covers offset finished)
    (contest : par = .race → ¬ right.Won (offset + left.leafCount) recorded)
    (present : ∀ index, right.Covers (offset + left.leafCount) index → (recorded index).isSome)
    (liveRight : Live right (offset + left.leafCount) recorded)
    (inner : Progress left offset finished recorded) :
    Progress (.parallel left par right) offset finished recorded := by
  have readyLeft : ∀ index, right.Covers (offset + left.leafCount) index →
      index ∉ (left.advanced offset finished recorded).newlyReady :=
    fun index inRight ready => (newlyReady_sound covered ready).1.not_right inRight
  have dropLeft : ∀ index, right.Covers (offset + left.leafCount) index →
      index ∉ (left.advanced offset finished recorded).toCancel :=
    fun index inRight dropped => (toCancel_sound covered dropped).1.not_right inRight
  have dropRight : ∀ index, left.Covers offset index →
      index ∉ (left.verdict par right offset recorded).toCancel :=
    fun index inLeft dropped => inLeft.not_right (verdict_right_of_contested contest dropped).2
  have noneReady : ∀ index, index ∉ (left.verdict par right offset recorded).newlyReady := by
    simp [verdict_newlyReady]
  constructor <;> rw [advanced_parallel_left covered]
  · refine ⟨inner.live.congr fun index inLeft =>
      launched_extend (noneReady index) (dropRight index inLeft), ?_⟩
    by_cases won : par = .race ∧ left.Won offset recorded
    · refine live_of_ended fun index inRight => ?_
      rw [Statuses.Terminal, ChainTransition.launched, Statuses.setAll, if_neg (by
        simp [noneReady index, readyLeft index inRight])]
      refine ended_settle present (fun other inside isOpen => ?_) index inRight
      exact List.mem_append_right _ (mem_verdict_toCancel.mpr ⟨won.1, isOpen, .inl ⟨won.2, inside⟩⟩)
    · refine liveRight.congr fun index inRight => launched_apart ?_ ?_
      · simp [noneReady index, readyLeft index inRight]
      · intro dropped
        have outrun := (List.mem_append.mp dropped).resolve_left (dropLeft index inRight)
        exact won ⟨(mem_verdict_toCancel.mp outrun).1, (verdict_right_of_contested contest outrun).1⟩
  · intro ended
    obtain ⟨endedLeft, endedRight⟩ := ended_parallel.mp ended
    have noticed := inner.noticed
      ((ended_of_same fun index inLeft => settle_extend (dropRight index inLeft)).mp endedLeft)
    by_cases already : right.Ended (offset + left.leafCount) recorded
    · refine noticed.imp (fun ended => ended_parallel.mpr ⟨ended, already⟩) (fun closes => ?_)
      simp [ChainNode.closes, covered.2, closes, already]
    · obtain ⟨index, inRight, unfinished⟩ := not_forall₂.mp already
      have terminal := endedRight index inRight
      rw [ChainTransition.settle, terminal_setAll] at terminal
      have outrun := (List.mem_append.mp (terminal.resolve_right unfinished)).resolve_left
        (dropLeft index inRight)
      have isRace := (mem_verdict_toCancel.mp outrun).1
      have won := (verdict_right_of_contested contest outrun).1
      right
      simp [ChainNode.closes, covered.2, isRace, won, already]

private theorem progress_parallel_right (covered : right.Covers (offset + left.leafCount) finished)
    (contest : par = .race → ¬ left.Won offset recorded)
    (present : ∀ index, left.Covers offset index → (recorded index).isSome)
    (liveLeft : Live left offset recorded)
    (inner : Progress right (offset + left.leafCount) finished recorded) :
    Progress (.parallel left par right) offset finished recorded := by
  have readyRight : ∀ index, left.Covers offset index →
      index ∉ (right.advanced (offset + left.leafCount) finished recorded).newlyReady :=
    fun index inLeft ready => inLeft.not_right (newlyReady_sound covered ready).1
  have dropRight : ∀ index, left.Covers offset index →
      index ∉ (right.advanced (offset + left.leafCount) finished recorded).toCancel :=
    fun index inLeft dropped => inLeft.not_right (toCancel_sound covered dropped).1
  have dropLeft : ∀ index, right.Covers (offset + left.leafCount) index →
      index ∉ (left.verdict par right offset recorded).toCancel :=
    fun index inRight dropped => (verdict_left_of_contested contest dropped).2.not_right inRight
  have noneReady : ∀ index, index ∉ (left.verdict par right offset recorded).newlyReady := by
    simp [verdict_newlyReady]
  constructor <;> rw [advanced_parallel_right covered]
  · refine ⟨?_, inner.live.congr fun index inRight =>
      launched_extend (noneReady index) (dropLeft index inRight)⟩
    by_cases won : par = .race ∧ right.Won (offset + left.leafCount) recorded
    · refine live_of_ended fun index inLeft => ?_
      rw [Statuses.Terminal, ChainTransition.launched, Statuses.setAll, if_neg (by
        simp [noneReady index, readyRight index inLeft])]
      refine ended_settle present (fun other inside isOpen => ?_) index inLeft
      exact List.mem_append_right _ (mem_verdict_toCancel.mpr
        ⟨won.1, isOpen, .inr ⟨contest won.1, won.2, inside⟩⟩)
    · refine liveLeft.congr fun index inLeft => launched_apart ?_ ?_
      · simp [noneReady index, readyRight index inLeft]
      · intro dropped
        have outrun := (List.mem_append.mp dropped).resolve_left (dropRight index inLeft)
        exact won ⟨(mem_verdict_toCancel.mp outrun).1, (verdict_left_of_contested contest outrun).1⟩
  · intro ended
    obtain ⟨endedLeft, endedRight⟩ := ended_parallel.mp ended
    have noticed := inner.noticed
      ((ended_of_same fun index inRight => settle_extend (dropLeft index inRight)).mp endedRight)
    have notLeft : ¬ finished < offset + left.leafCount := not_lt_of_ge covered.1
    by_cases already : left.Ended offset recorded
    · refine noticed.imp (fun ended => ended_parallel.mpr ⟨already, ended⟩) (fun closes => ?_)
      simp [ChainNode.closes, notLeft, closes, already]
    · obtain ⟨index, inLeft, unfinished⟩ := not_forall₂.mp already
      have terminal := endedLeft index inLeft
      rw [ChainTransition.settle, terminal_setAll] at terminal
      have outrun := (List.mem_append.mp (terminal.resolve_right unfinished)).resolve_left
        (dropRight index inLeft)
      have isRace := (mem_verdict_toCancel.mp outrun).1
      have won := (verdict_left_of_contested contest outrun).1
      right
      simp [ChainNode.closes, notLeft, isRace, won, already]

/-- One prompt advancement keeps a subtree live and notices every operand it ends. -/
theorem Live.advance {triggered : ℕ → Prop} (live : Live node offset before)
    (step : Finishes triggered finished before recorded)
    (running : before finished = some .running)
    (covered : node.Covers offset finished)
    (contested : Contested node offset finished recorded)
    (present : ∀ index, node.Covers offset index → (recorded index).isSome)
    (ended : recorded.Terminal finished)
    (prompt : node.prompt offset finished recorded = true) :
    Progress node offset finished recorded := by
  induction covered using ChainNode.Covers.path_induction with
  | leaf plan =>
    refine ⟨live_of_ended fun index covered => ?_, fun settled => .inl settled⟩
    rw [covers_leaf] at covered
    subst covered
    exact ended
  | serialLeft left op right offset covered _ ih =>
    simp only [covers_serial, or_imp, forall_and] at present
    simp only [Contested, if_pos covered.2] at contested
    simp only [ChainNode.prompt, if_pos covered.2, Bool.and_eq_true, Bool.not_eq_true'] at prompt
    have fresh := live.2.2 (not_ended_of_mem covered step.unfinished)
    refine progress_serial_left covered (fun index inRight => ?_) prompt.1
      (ih live.1 contested present.1 prompt.2)
    rw [step.elsewhere covered.not_right index inRight]
    exact fresh index inRight
  | serialRight left op right offset covered _ ih =>
    simp only [covers_serial, or_imp, forall_and] at present
    simp only [Contested, if_neg (not_lt_of_ge covered.1)] at contested
    simp only [ChainNode.prompt, if_neg (not_lt_of_ge covered.1)] at prompt
    have apart : ¬ left.Covers offset finished := fun inLeft => inLeft.not_right covered
    have endedLeft : left.Ended offset before := by
      by_contra unfinished
      simp [live.2.2 unfinished finished covered] at running
    exact progress_serial_right covered ((ended_of_same (step.elsewhere apart)).mpr endedLeft)
      (ih (live.2.1 endedLeft) contested present.2 prompt)
  | parallelLeft left op right offset covered _ ih =>
    simp only [covers_parallel, or_imp, forall_and] at present
    simp only [Contested, if_pos covered.2] at contested
    simp only [ChainNode.prompt, if_pos covered.2] at prompt
    exact progress_parallel_left covered contested.1 present.2
      (live.2.congr (step.elsewhere covered.not_right)) (ih live.1 contested.2 present.1 prompt)
  | parallelRight left op right offset covered _ ih =>
    simp only [covers_parallel, or_imp, forall_and] at present
    simp only [Contested, if_neg (not_lt_of_ge covered.1)] at contested
    simp only [ChainNode.prompt, if_neg (not_lt_of_ge covered.1)] at prompt
    have apart : ¬ left.Covers offset finished := fun inLeft => inLeft.not_right covered
    exact progress_parallel_right covered contested.1 present.1
      (live.1.congr (step.elsewhere apart)) (ih live.2 contested.2 present.2 prompt)

end Step

namespace ChainRun

/-- The states reached by runs in which every ending is prompt. -/
inductive Prompt (node : ChainNode) : ChainRun → Prop
  | launch : Prompt node (launch node [])
  | complete {run : ChainRun} {index : ℕ} (outcome : LeafOutcome) :
      Prompt node run → run.statuses index = some .running →
        node.prompt 0 index (run.recorded index outcome) = true →
        Prompt node (run.complete node index outcome [])

theorem Prompt.reachable (prompt : Prompt node run) : Reachable node run := by
  induction prompt with
  | launch => exact .launch
  | complete outcome _ running _ ih => exact ih.complete outcome running

theorem complete_statuses {outcome : LeafOutcome} :
    (run.complete node index outcome []).statuses =
      (node.advanced 0 index (run.recorded index outcome)).launched (run.recorded index outcome) := by
  simp [ChainRun.complete, start, settled, ChainTransition.launched, ChainTransition.settle, advance,
    advanceChain, ChainNode.advanced]

theorem Prompt.live (prompt : Prompt node run) : Live node 0 run.statuses := by
  induction prompt with
  | launch =>
    have start : ∀ index, (ChainRun.launch node []).statuses index =
        if index ∈ node.entries 0 then some .running else Statuses.allPending node index := by
      simp [ChainRun.launch, ChainRun.start, Statuses.setAll, initiallyReady_eq]
    refine live_of_entered (fun index entry => ?_) (fun index covered absent => ?_)
    · rw [start, if_pos entry]
    · rw [start, if_neg absent]
      exact allPending_of_lt (covers_root.mp covered)
  | @complete run index outcome before running prompt ih =>
    have sound := before.reachable.sound
    have member := sound.started_of_running running
    rw [complete_statuses]
    refine (ih.advance (Sound.finishes member (.inl running)) running
      (covers_root.mpr (sound.inRange index member)) (sound.contested member (.inl running) outcome)
      (fun other covered => ?_) ?_ prompt).live
    · exact (sound.recorded_domain member outcome other).mpr (covers_root.mp covered)
    · simp [Statuses.Terminal, recorded_self]

/-- A run of prompt endings with no running leaf has ended every leaf of the chain. -/
theorem no_stuck_chain (prompt : Prompt node run)
    (quiet : ∀ index < node.leafCount, run.statuses index ≠ some .running) :
    isChainTerminal node run.statuses = true := by
  have sound := prompt.reachable.sound
  refine allLeavesTerminal_iff.mpr (prompt.live.ended (fun index covered => ?_) fun index covered => ?_)
  · exact (sound.domain index).mpr (covers_root.mp covered)
  · exact quiet index (covers_root.mp covered)

/-- The chain `a -> b` after `a` has failed: `b` is dropped. -/
theorem no_stuck_chain_failure :
    let leaf name := ChainNode.leaf (.simple [name])
    let node := ChainNode.serial (leaf "a") .andThen (leaf "b")
    let run := (launch node []).complete node 0 (.exited 1) []
    run.statuses 1 = some .cancelled ∧ isChainTerminal node run.statuses = true := by
  intro leaf node run
  have prompt : Prompt node run := .complete (.exited 1) .launch (by decide) (by decide)
  exact ⟨by decide, no_stuck_chain prompt (by decide)⟩

/-- The chain `a -> b -> c` after `a` has failed: `b` is cancelled, but `c` stays pending although
nothing runs any more. -/
theorem stuck_chain :
    let leaf name := ChainNode.leaf (.simple [name])
    let node := ChainNode.serial (.serial (leaf "a") .andThen (leaf "b")) .andThen (leaf "c")
    let run := (launch node []).complete node 0 (.exited 1) []
    parseCommand ":run a -> b -> c" .job = some (.ok (.single (.run node {}))) ∧
    Reachable node run ∧ (∀ index < node.leafCount, run.statuses index ≠ some .running) ∧
    run.statuses 2 = some .pending ∧ isChainTerminal node run.statuses = false := by
  intro leaf node run
  refine ⟨by decide, .complete (.exited 1) .launch (by decide), by decide, by decide, by decide⟩

end ChainRun

end CueShell
