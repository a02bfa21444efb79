import CueShell.Proofs.SchedulerMoves
import Mathlib.Algebra.Order.Ring.GeomSum

/-! # Processing a chain is a sequence of steps

The queue of ready leaves is worked off completely: a leaf makes only later leaves ready, so a queue
weighs less after every round. Then the chain is closed or rests.
-/

namespace CueShell

open Relation (ReflTransGen)

variable {env : Env} {state : SchedulerState} (running : List RunningScript)
variable (target : Targets) (request : Option SpawnChainRequest)

section Rounds

/-- The weight of a queue: a leaf weighs more than all later leaves together. -/
def queueWeight (leafCount : ℕ) (queue : List (ℕ × ScopeHash)) : ℕ :=
  (queue.map fun (index, _) => 2 ^ (leafCount - 1 - index)).sum

/-- Different leaves from some position on weigh less than the leaf before them. -/
theorem leaves_weigh_less {indices : List ℕ} {leafCount first : ℕ} (distinct : indices.Nodup)
    (inside : ∀ index ∈ indices, first ≤ index ∧ index < leafCount) :
    (indices.map fun index => 2 ^ (leafCount - 1 - index)).sum < 2 ^ (leafCount - first) := by
  have apart : (indices.map fun index => leafCount - 1 - index).Nodup := by
    refine List.Nodup.map_on ?_ distinct
    intro index member other otherMember same
    have bounds := inside index member
    have otherBounds := inside other otherMember
    omega
  have small : ∀ power ∈ (indices.map fun index => leafCount - 1 - index).toFinset,
      power < leafCount - first := by
    intro power member
    obtain ⟨index, inList, rfl⟩ := List.mem_map.mp (List.mem_toFinset.mp member)
    have bounds := inside index inList
    omega
  have bound := Nat.geomSum_lt le_rfl small
  rwa [List.sum_toFinset _ apart, List.map_map] at bound

/-- Different leaves of a chain wait to be started. -/
structure Startable (leafCount : ℕ) (queue : List (ℕ × ScopeHash)) : Prop where
  distinct : (queue.map Prod.fst).Nodup
  inside : ∀ index ∈ queue.map Prod.fst, index < leafCount

theorem ChainAdvance.Of.startable {chainId : ChainId} {node : ChainNode} {index : ℕ}
    {advance : ChainAdvance} (asked : ChainAdvance.Of chainId node index (some advance)) :
    Startable node.leafCount advance.newlyReady := by
  obtain ⟨-, statuses, ready⟩ := asked advance rfl
  rcases Nat.lt_or_ge index node.leafCount with inside | outside
  · have covered : node.Covers 0 index := covers_root.mpr inside
    constructor
    · rw [ready]
      exact newlyReady_nodup statuses covered
    · intro other member
      rw [ready] at member
      exact covers_root.mp (newlyReady_sound covered member).1
  · have none_ready : (advanceChain node index statuses).newlyReady = [] :=
      newlyReady_outside node statuses (by omega)
    rw [none_ready] at ready
    constructor <;> simp [ready]

theorem Startable.weight_lt {leafCount : ℕ} {queue : List (ℕ × ScopeHash)}
    (startable : Startable leafCount queue) : queueWeight leafCount queue < 2 ^ leafCount := by
  have light := leaves_weigh_less startable.distinct
    fun index member => ⟨Nat.zero_le _, startable.inside index member⟩
  rw [List.map_map] at light
  exact light

/-- A round takes more weight off the queue than it adds. -/
theorem ChainAdvance.Of.weight_le {chainId : ChainId} {node : ChainNode} {index : ℕ}
    {advance : ChainAdvance} (inside : index < node.leafCount)
    (asked : ChainAdvance.Of chainId node index (some advance)) :
    queueWeight node.leafCount advance.newlyReady + 1 ≤ 2 ^ (node.leafCount - 1 - index) := by
  obtain ⟨-, statuses, ready⟩ := asked advance rfl
  have covered : node.Covers 0 index := covers_root.mpr inside
  have light : ((advance.newlyReady.map Prod.fst).map
      fun other => 2 ^ (node.leafCount - 1 - other)).sum < 2 ^ (node.leafCount - (index + 1)) := by
    apply leaves_weigh_less asked.startable.distinct
    intro other member
    refine ⟨?_, asked.startable.inside other member⟩
    rw [ready] at member
    exact newlyReady_later covered member
  rw [List.map_map] at light
  have same : node.leafCount - (index + 1) = node.leafCount - 1 - index := by omega
  rw [← same]
  exact light

end Rounds

section Shapes

theorem shape_modify (chains : Table ChainId ChainState) (key chainId : ChainId)
    (change : ChainState → ChainState) (kept : ∀ chain, (change chain).shape = chain.shape) :
    ((chains.modify key change).get chainId).map ChainState.shape =
      (chains.get chainId).map ChainState.shape := by
  rw [Table.get_modify]
  split
  · rename_i same
    rw [same, Option.map_map]
    exact congrArg (fun shape => Option.map shape (chains.get key)) (funext kept)
  · rfl

theorem Board.shape_setLeaf (board : Board) (place : Option (ChainId × ℕ)) (status : LeafStatus)
    (chainId : ChainId) : ((board.setLeaf place status).get chainId).map ChainState.shape =
      (board.chains.get chainId).map ChainState.shape := by
  unfold Board.setLeaf
  split
  · rfl
  · exact shape_modify _ _ _ _ fun _ => rfl

@[simp] theorem Board.follow_chains (board : Board) (jobId : JobId) (endScope : Option ScopeHash) :
    (board.follow jobId endScope).chains = board.chains := by
  unfold Board.follow
  cases board.place jobId <;> rfl

/-- A move changes what the leaves of a chain have done, and nothing else about it. -/
theorem Board.Move.shape {before after : Board} (move : Board.Move target before after)
    (chainId : ChainId) : (after.chains.get chainId).map ChainState.shape =
      (before.chains.get chainId).map ChainState.shape := by
  cases move with
  | enterLeaf => exact shape_modify _ _ _ _ fun _ => rfl
  | parkLeaf => exact shape_modify _ _ _ _ fun _ => rfl
  | transform =>
    rw [Board.follow_chains]
    exact (Board.shape_setLeaf ..).trans (shape_modify _ _ _ _ fun _ => rfl)
  | finish =>
    rw [Board.follow_chains]
    exact Board.shape_setLeaf ..
  | cancelIdle => exact shape_modify _ _ _ _ fun _ => rfl
  | cancelLeaf => exact Board.shape_setLeaf ..
  | _ => rfl

theorem Board.Moves.shape {before after : Board} (moves : Board.Moves target before after)
    (chainId : ChainId) : (after.chains.get chainId).map ChainState.shape =
      (before.chains.get chainId).map ChainState.shape := by
  induction moves with
  | refl => rfl
  | tail _ move ih => exact (move.shape target chainId).trans ih

/-- The chain is still there after moves, with the same shape. -/
theorem Board.Moves.active {before after : Board} {chainId : ChainId} {chain : ChainState}
    (moves : Board.Moves target before after) (active : before.chains.get chainId = some chain) :
    ∃ later, after.chains.get chainId = some later ∧ later.shape = chain.shape := by
  have kept := moves.shape target chainId
  rw [active] at kept
  exact Option.map_eq_some_iff.mp kept

theorem ChainContext.Of.of_shape {context : ChainContext} {chain later : ChainState}
    (shows : context.Of chain) (same : later.shape = chain.shape) : context.Of later := by
  have node : later.shape.node = chain.shape.node := by rw [same]
  have process : later.shape.process = chain.shape.process := by rw [same]
  have scopeEnabled : later.shape.scopeEnabled = chain.shape.scopeEnabled := by rw [same]
  have sessionId : later.shape.sessionId = chain.shape.sessionId := by rw [same]
  dsimp only [ChainState.shape] at node process scopeEnabled sessionId
  constructor
  · rw [shows.leaves, node]
  · rw [shows.options, process, scopeEnabled]
  · rw [shows.sessionId, sessionId]

end Shapes

section Queue

variable {context : ChainContext} {chain : ChainState}

/-- One round of the queue: the leaf is started, and what its end asks for is done or queued. -/
theorem startLeaf_moves {leaf : FlatLeaf} {index : ℕ} {startScope : ScopeHash}
    (queue : List (ℕ × ScopeHash)) (outcome : ChainAdvanceOutcome)
    (active : state.chains.get context.chainId = some chain) (shows : context.Of chain)
    (inside : index < chain.node.leafCount) :
    Ensures (startLeaf env context leaf index startScope state.nextJob outcome queue)
      { state with
        nextJob := state.nextJob + 1
        log := state.log ++ [.entered context.chainId index (chain.leafStatus index)] }
      fun result after =>
        Board.Moves target
          (state.board (some ⟨context.chainId, [], (index, startScope) :: queue⟩) running)
          (after.board (some ⟨context.chainId, [], result.2⟩) running) ∧
        ∃ added, result.2 = queue ++ added ∧ Startable chain.node.leafCount added ∧
          queueWeight chain.node.leafCount added + 1 ≤ 2 ^ (chain.node.leafCount - 1 - index) := by
  have nothing : Startable chain.node.leafCount [] ∧
      queueWeight chain.node.leafCount [] + 1 ≤ 2 ^ (chain.node.leafCount - 1 - index) := by
    refine ⟨⟨List.nodup_nil, by simp⟩, ?_⟩
    simpa [queueWeight] using Nat.one_le_two_pow
  unfold startLeaf
  apply Ensures.modify
  refine Ensures.bind (runLeaf_moves running target queue active shows inside) ?_
  rintro ⟨terminal, spawnError⟩ middle ⟨path, asked⟩
  cases terminal with
  | none => exact ⟨path, [], (List.append_nil _).symm, nothing⟩
  | some terminal =>
    unfold applyTerminalChainAdvance
    dsimp only [Option.bind_some] at path asked ⊢
    cases due : terminal.chainAdvance with
    | none =>
      rw [due] at path
      exact ⟨path, [], (List.append_nil _).symm, nothing⟩
    | some advance =>
      rw [due] at path asked
      obtain ⟨chainId, -⟩ := asked advance rfl
      refine Ensures.bind (cancelChainLeaves_moves running target (queue ++ advance.newlyReady)
        advance.toCancel) ?_
      intro error after cancelled
      apply Ensures.pure
      refine ⟨path.trans ?_, advance.newlyReady, rfl, asked.startable, asked.weight_le inside⟩
      simpa [ChainAdvance.due, chainId] using cancelled

theorem queueWeight_append (leafCount : ℕ) (first second : List (ℕ × ScopeHash)) :
    queueWeight leafCount (first ++ second) =
      queueWeight leafCount first + queueWeight leafCount second := by
  simp [queueWeight]

theorem allocJob_spec : Ensures allocJob state fun jobId after =>
    jobId = state.nextJob ∧ after = { state with nextJob := state.nextJob + 1 } :=
  ⟨rfl, rfl⟩

/-- Enough rounds work off the whole queue. -/
theorem startQueue_moves {rounds : ℕ} {queue : List (ℕ × ScopeHash)} (captureFirst : ℕ)
    (outcome : ChainAdvanceOutcome) (active : state.chains.get context.chainId = some chain)
    (shows : context.Of chain) (inside : ∀ index ∈ queue.map Prod.fst, index < chain.node.leafCount)
    (enough : queueWeight chain.node.leafCount queue < rounds) :
    Ensures (startQueue env context captureFirst rounds outcome queue) state fun _ after =>
      Board.Moves target (state.board (some ⟨context.chainId, [], queue⟩) running)
        (after.board (some ⟨context.chainId, [], []⟩) running) := by
  induction rounds generalizing state chain outcome queue with
  | zero => omega
  | succ rounds ih =>
    cases queue with
    | nil => exact .refl
    | cons first queue =>
      obtain ⟨index, startScope⟩ := first
      have leafInside : index < chain.node.leafCount := inside index (by simp)
      obtain ⟨leaf, known⟩ : ∃ leaf, context.leaves[index]? = some leaf := by
        rw [← flattenLeaves_length, ← shows.leaves] at leafInside
        exact ⟨_, List.getElem?_eq_getElem leafInside⟩
      unfold startQueue
      apply Ensures.bind allocJob_spec
      rintro jobId after ⟨rfl, rfl⟩
      apply Ensures.get
      rw [active, known]
      apply Ensures.modify
      refine Ensures.bind (startLeaf_moves running target queue _ active shows leafInside) ?_
      rintro ⟨next, later⟩ middle ⟨path, added, rfl, startable, lighter⟩
      obtain ⟨still, stillActive, same⟩ := path.active target active
      have node : still.node = chain.node := by
        have := congrArg ChainState.node same
        exact this
      have total : queueWeight chain.node.leafCount ((index, startScope) :: queue) =
          2 ^ (chain.node.leafCount - 1 - index) + queueWeight chain.node.leafCount queue := rfl
      apply (ih next stillActive (shows.of_shape same) ?_ ?_).mono
      · intro result after rest
        exact path.trans rest
      · intro other member
        rw [node]
        rw [List.map_append] at member
        rcases List.mem_append.mp member with old | new
        · exact inside other (List.mem_cons_of_mem _ old)
        · exact startable.inside other new
      · rw [node, queueWeight_append]
        omega

theorem Board.Moves.steps {before after : Board} (moves : Board.Moves target before after) :
    Board.Steps target request before after :=
  ReflTransGen.mono (fun _ _ move => Board.Step.move move) _ _ moves

theorem closeChain_spec (chainId : ChainId) (chain : ChainState) (retain : Bool) :
    Ensures (closeChain chainId chain retain) state fun _ after =>
      ∃ completed, after = { state with
          completedChains := completed
          chains := state.chains.erase chainId
          jobToChain := state.jobToChain.retain fun jobId _ => !chain.ownsJob jobId
          log := state.log ++ [.closed chainId chain] } ∧
        (retain → (completed.get chainId).isSome) ∧
        (completed = state.completedChains ∧ state.pendingScriptChains.get chainId = none ∨
          ∃ endScope, completed = state.completedChains.insert chainId
            ⟨aggregateChainExitCode chain.node chain.leafStatus, endScope⟩) := by
  unfold closeChain
  apply Ensures.get
  apply Ensures.modify
  refine ⟨_, rfl, ?_⟩
  dsimp only
  split
  · refine ⟨fun _ => by simp [Table.get_insert], .inr ⟨_, rfl⟩⟩
  · rename_i unkept
    simp only [Bool.or_eq_true, not_or] at unkept
    refine ⟨fun kept => absurd kept unkept.1, .inl ⟨rfl, ?_⟩⟩
    simpa using unkept.2

/-- All work on a chain is done, and the chain is closed if it is complete. -/
theorem processChainAdvance_steps (asked : ChainAdvanceRequest)
    (allowed : target.chains asked.chainId)
    (startable : ∀ chain, state.chains.get asked.chainId = some chain →
      Startable chain.node.leafCount asked.newlyReady) :
    Ensures (processChainAdvance env asked) state fun _ after =>
      Board.Steps target request
        (state.board (some ⟨asked.chainId, asked.toCancel, asked.newlyReady⟩) running)
        (after.board none running) ∧
      ((state.chains.get asked.chainId).isSome → asked.retainCompletedChain →
        (after.chains.get asked.chainId).isSome ∨ (after.completedChains.get asked.chainId).isSome) := by
  unfold processChainAdvance
  apply Ensures.bind (cancelChainLeaves_moves running target asked.newlyReady asked.toCancel)
  intro persistError cancelled path
  have shape := path.shape target asked.chainId
  apply Ensures.get
  cases active : cancelled.chains.get asked.chainId with
  | none =>
    apply Ensures.pure
    refine ⟨(path.steps target request).tail (.lost rfl active), ?_⟩
    intro present
    have absent : state.chains.get asked.chainId = none := by
      simpa [SchedulerState.board, active] using shape
    simp [absent] at present
  | some chain =>
    have known : ∃ first, state.chains.get asked.chainId = some first ∧ first.shape = chain.shape := by
      simpa [SchedulerState.board, active] using shape
    obtain ⟨first, started, same⟩ := known
    have node : first.node = chain.node := by
      have := congrArg ChainState.node same
      exact this
    have ready := startable first started
    rw [node] at ready
    let context : ChainContext := ⟨asked.chainId, flattenLeaves chain.node,
      ⟨chain.process, chain.scopeEnabled⟩, chain.sessionId⟩
    have shows : context.Of chain := ⟨rfl, rfl, rfl⟩
    have enough : queueWeight chain.node.leafCount asked.newlyReady < queueRounds chain.node := by
      have light := ready.weight_lt
      have more : 2 ^ chain.node.leafCount ≤ 2 ^ (chain.node.leafCount + 1) :=
        Nat.pow_le_pow_right (by omega) (by omega)
      unfold queueRounds
      omega
    refine Ensures.bind (startQueue_moves running target asked.captureFirst _ active shows
      ready.inside enough) ?_
    intro outcome after worked
    have done := Board.Moves.steps target request (path.trans worked)
    apply Ensures.get
    cases found : after.chains.get asked.chainId with
    | none =>
      apply Ensures.pure
      refine ⟨done.tail (.lost rfl found), ?_⟩
      obtain ⟨later, stillActive, -⟩ := worked.active target active
      cases found.symm.trans stillActive
    | some last =>
      dsimp only
      split
      · rename_i ended
        apply Ensures.bind (closeChain_spec _ _ _)
        rintro - closed ⟨completed, rfl, retained, kept⟩
        apply Ensures.pure
        exact ⟨done.tail (.close last completed rfl found allowed ended kept),
          fun _ wanted => .inr (retained wanted)⟩
      · rename_i unfinished
        apply Ensures.pure
        refine ⟨done.tail (.rest rfl ?_), fun _ _ => .inl (by simp [found])⟩
        intro other same
        cases found.symm.trans same
        exact unfinished

end Queue

section Log

theorem Board.log_follow (board : Board) (jobId : JobId) (endScope : Option ScopeHash) :
    board.log <+: (board.follow jobId endScope).log := by
  unfold Board.follow
  split
  · exact List.prefix_rfl
  · exact List.prefix_append ..

theorem Board.log_finish (board : Board) (jobId : JobId) (entry : JobEntry)
    (update : TerminalStateUpdate) : board.log <+: (board.finish jobId entry update).log :=
  List.prefix_append ..

/-- What has been logged stays. -/
theorem Board.Move.log {before after : Board} (move : Board.Move target before after) :
    before.log <+: after.log := by
  cases move with
  | grant => exact List.prefix_append ..
  | launch => exact List.prefix_append ..
  | enterLeaf => exact List.prefix_append ..
  | parkLeaf => exact List.prefix_append ..
  | transform =>
    refine List.IsPrefix.trans ?_ (Board.log_follow ..)
    exact (List.prefix_append ..).trans (List.prefix_append ..)
  | finish => exact (Board.log_finish ..).trans (Board.log_follow ..)
  | cancelLeaf => exact Board.log_finish ..
  | refuse => exact List.prefix_append ..
  | _ => exact List.prefix_rfl

theorem Board.Step.log {before after : Board} (step : Board.Step target request before after) :
    before.log <+: after.log := by
  cases step with
  | move change => exact change.log target
  | spawn => exact List.prefix_append ..
  | enterJob => exact List.prefix_append ..
  | parkJob => exact List.prefix_append ..
  | activate => exact List.prefix_append ..
  | close => exact List.prefix_append ..
  | fault => exact List.prefix_append ..
  | _ => exact List.prefix_rfl

theorem Board.Steps.log {before after : Board} (steps : Board.Steps target request before after) :
    before.log <+: after.log := by
  induction steps with
  | refl => exact List.prefix_rfl
  | tail _ step ih => exact ih.trans (step.log target request)

end Log

end CueShell
