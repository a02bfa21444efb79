import CueShell.Model.JobStreaming

/-! # Short-circuit evaluation of a job

The pipelines that are run for a job are those of short-circuit evaluation from the left, for whatever
codes they return. A kill ends the evaluation with the pipeline that receives it.
-/

namespace CueShell

/-- Short-circuit evaluation from the left: the numbers of the pipelines that are run, and the code. -/
def JobPlan.shortCircuit (codes : ℕ → ℤ) : ℕ → JobPlan → List ℕ × ℤ
  | number, .pipeline _ => ([number], codes number)
  | number, .and left right =>
      let (ran, code) := left.shortCircuit codes number
      if code = 0 then
        let (more, code) := right.shortCircuit codes (number + left.pipelines.length)
        (ran ++ more, code)
      else (ran, code)
  | number, .or left right =>
      let (ran, code) := left.shortCircuit codes number
      if code ≠ 0 then
        let (more, code) := right.shortCircuit codes (number + left.pipelines.length)
        (ran ++ more, code)
      else (ran, code)

/-- The codes are those that the steps returned, for every step that was not killed. -/
def Returned (codes : ℕ → ℤ) (steps : List JobStep) : Prop :=
  ∀ step ∈ steps, step.killed = false → codes step.number = step.code

/-- The snapshot that a step leaves: only builtins change it. -/
def JobStep.leaves (fs : FileSystem) (snapshot : EnvSnapshot) (step : JobStep) : EnvSnapshot :=
  ((runJobLocalBuiltin fs step.pipeline snapshot).map BuiltinEnd.snapshot).getD snapshot

/-- Each step was started with what the steps before it left. -/
def Threaded (fs : FileSystem) : EnvSnapshot → List JobStep → Prop
  | _, [] => True
  | snapshot, step :: rest => step.seen = snapshot ∧ Threaded fs (step.leaves fs snapshot) rest

section Threaded

variable {fs : FileSystem} {snapshot : EnvSnapshot} {steps more : List JobStep}

theorem Threaded.append (front : Threaded fs snapshot steps)
    (back : Threaded fs (steps.foldl (JobStep.leaves fs) snapshot) more) :
    Threaded fs snapshot (steps ++ more) := by
  induction steps generalizing snapshot with
  | nil => exact back
  | cons step steps ih => exact ⟨front.1, ih front.2 back⟩

theorem Threaded.seen (threaded : Threaded fs snapshot steps) {place : ℕ} {step : JobStep}
    (there : steps[place]? = some step) :
    step.seen = (steps.take place).foldl (JobStep.leaves fs) snapshot := by
  induction steps generalizing snapshot place with
  | nil => simp at there
  | cons head steps ih =>
    cases place with
    | zero =>
      rw [List.getElem?_cons_zero, Option.some_inj] at there
      exact there ▸ threaded.1
    | succ place => exact ih threaded.2 there

end Threaded

theorem Returned.left {codes : ℕ → ℤ} {steps more : List JobStep} (returned : Returned codes (steps ++ more)) :
    Returned codes steps :=
  fun step member => returned step (List.mem_append_left _ member)

theorem Returned.right {codes : ℕ → ℤ} {steps more : List JobStep} (returned : Returned codes (steps ++ more)) :
    Returned codes more :=
  fun step member => returned step (List.mem_append_right _ member)

/-- What the steps of a plan are, from the context before it to the code and the context behind it. -/
structure Evaluation (fs : FileSystem) (number : ℕ) (plan : JobPlan) (before : StreamingContext)
    (steps : List JobStep) (code : ℤ) (after : StreamingContext) : Prop where
  history : after.steps = before.steps ++ steps
  placed : ∀ step ∈ steps, ∃ place, step.number = number + place ∧
    plan.pipelines[place]? = some step.pipeline
  ordered : steps.Pairwise fun earlier later => earlier.number < later.number
  threaded : Threaded fs before.snapshot steps
  snapshot : after.snapshot = steps.foldl (JobStep.leaves fs) before.snapshot
  finished : after.wasKilled = false → ∀ codes, Returned codes steps →
    plan.shortCircuit codes number = (steps.map JobStep.number, code)
  stopped : after.wasKilled = true → code = exitCodeUnavailable ∧ ∀ codes, Returned codes steps →
    steps.map JobStep.number <+: (plan.shortCircuit codes number).1
  alive : after.wasKilled = false → ∀ step ∈ steps, step.killed = false
  killed : after.wasKilled = true → ∃ front last, steps = front ++ [last] ∧ last.killed = true ∧
    ∀ step ∈ front, step.killed = false

section Run

variable {fs : FileSystem} {spawn : ℕ → List (List String) → EnvSnapshot → Option SpawnedPipeline}

theorem receiveEvents_snapshot (readers : ℕ) (events : List PipelineEvent) (context : StreamingContext) :
    (receiveEvents readers events context).snapshot = context.snapshot ∧
      (receiveEvents readers events context).steps = context.steps := by
  fun_induction receiveEvents readers events context with
  | case1 | case2 => exact ⟨rfl, rfl⟩
  | case3 readers events context ih => exact ih
  | case4 readers kind data events context ih => exact ih
  | case5 readers events context ih => exact ih

/-- A pipeline keeps the history, leaves the snapshot that its builtin leaves, and has no exit code if it
was killed. -/
theorem streamPipeline_spec (number : ℕ) (pipeline : Pipeline) {before : StreamingContext}
    (running : before.wasKilled = false) :
    (streamPipeline fs spawn number pipeline before).2.steps = before.steps ∧
    (streamPipeline fs spawn number pipeline before).2.snapshot =
      ((runJobLocalBuiltin fs pipeline before.snapshot).map BuiltinEnd.snapshot).getD before.snapshot ∧
    ((streamPipeline fs spawn number pipeline before).2.wasKilled = true →
      (streamPipeline fs spawn number pipeline before).1 = exitCodeUnavailable) := by
  rw [streamPipeline]
  cases runJobLocalBuiltin fs pipeline before.snapshot with
  | some done => exact ⟨rfl, rfl, fun killed => absurd (running.symm.trans killed) (by decide)⟩
  | none =>
    dsimp only
    cases expandPipelineSegments pipeline before.snapshot with
    | none => exact ⟨rfl, rfl, fun _ => rfl⟩
    | some segments =>
      dsimp only
      cases spawn number segments before.snapshot with
      | none => exact ⟨rfl, rfl, fun _ => rfl⟩
      | some spawned =>
        obtain ⟨kept, history⟩ := receiveEvents_snapshot spawned.readers spawned.events before
        dsimp only
        split_ifs with received
        · exact ⟨history, kept, fun _ => rfl⟩
        · cases spawned.exit with
          | none => exact ⟨history, kept, fun _ => rfl⟩
          | some code => exact ⟨history, kept, fun killed => absurd killed received⟩

theorem runPipelineStreaming_evaluation (number : ℕ) (body : Pipeline) {before : StreamingContext}
    (running : before.wasKilled = false) :
    ∃ steps, Evaluation fs number (.pipeline body) before steps
      (runPipelineStreaming fs spawn number body before).1
      (runPipelineStreaming fs spawn number body before).2 := by
  obtain ⟨history, snapshot, killed⟩ := @streamPipeline_spec fs spawn number body before running
  rw [runPipelineStreaming]
  generalize streamPipeline fs spawn number body before = result at history snapshot killed
  obtain ⟨code, after⟩ := result
  refine ⟨[⟨number, body, before.snapshot, code, after.wasKilled⟩], ?_⟩
  exact {
    history := by rw [← history]
    placed := fun step member => ⟨0, by rw [List.mem_singleton.mp member]; exact ⟨rfl, rfl⟩⟩
    ordered := List.pairwise_singleton _ _
    threaded := ⟨rfl, trivial⟩
    snapshot := snapshot
    finished := fun alive codes returned =>
      Prod.ext rfl (returned _ (List.mem_singleton_self _) alive)
    stopped := fun stopped => ⟨killed stopped, fun codes _ => List.prefix_refl _⟩
    alive := fun alive step member => by rw [List.mem_singleton.mp member]; exact alive
    killed := fun stopped => ⟨[], _, rfl, stopped, by simp⟩ }

end Run

section Operators

variable {fs : FileSystem} {number next : ℕ} {plan left right : JobPlan}
  {before middle after : StreamingContext} {steps more : List JobStep} {code final : ℤ}

/-- An operator runs its right side if the code of its left side lets it. -/
structure Operator (plan left right : JobPlan) (goes : ℤ → Prop) [DecidablePred goes]
    (number next : ℕ) : Prop where
  evaluates : ∀ codes, plan.shortCircuit codes number =
    if goes (left.shortCircuit codes number).2 then
      ((left.shortCircuit codes number).1 ++ (right.shortCircuit codes next).1,
        (right.shortCircuit codes next).2)
    else left.shortCircuit codes number
  pipelines : plan.pipelines = left.pipelines ++ right.pipelines
  following : next = number + left.pipelines.length

variable {goes : ℤ → Prop} [DecidablePred goes]

theorem Operator.left_prefix (operator : Operator plan left right goes number next) (codes : ℕ → ℤ) :
    (left.shortCircuit codes number).1 <+: (plan.shortCircuit codes number).1 := by
  rw [operator.evaluates codes]
  split_ifs
  · exact List.prefix_append _ _
  · exact List.prefix_refl _

theorem Evaluation.placed_left (operator : Operator plan left right goes number next)
    (first : Evaluation fs number left before steps code middle) :
    ∀ step ∈ steps, ∃ place, step.number = number + place ∧
      plan.pipelines[place]? = some step.pipeline := by
  intro step member
  obtain ⟨place, isNumber, inside⟩ := first.placed step member
  refine ⟨place, isNumber, ?_⟩
  rw [operator.pipelines, List.getElem?_append_left (List.getElem?_eq_some_iff.mp inside).1, inside]

/-- The left side was the whole evaluation: its code decides, or it was killed. -/
theorem Evaluation.decided (operator : Operator plan left right goes number next)
    (first : Evaluation fs number left before steps code after)
    (stays : after.wasKilled = false → ¬ goes code) :
    Evaluation fs number plan before steps code after where
  history := first.history
  placed := first.placed_left operator
  ordered := first.ordered
  threaded := first.threaded
  snapshot := first.snapshot
  finished alive codes returned := by
    have result := first.finished alive codes returned
    have decides : ¬ goes (left.shortCircuit codes number).2 := by
      rw [result]
      exact stays alive
    rw [operator.evaluates codes, if_neg decides, result]
  stopped killed := by
    obtain ⟨unavailable, ran⟩ := first.stopped killed
    exact ⟨unavailable, fun codes returned => (ran codes returned).trans (operator.left_prefix codes)⟩
  alive := first.alive
  killed := first.killed

/-- The right side went on where the left side ended. -/
theorem Evaluation.continued (operator : Operator plan left right goes number next)
    (first : Evaluation fs number left before steps code middle) (alive : middle.wasKilled = false)
    (going : goes code) (second : Evaluation fs next right middle more final after) :
    Evaluation fs number plan before (steps ++ more) final after := by
  have whole (codes : ℕ → ℤ) (returned : Returned codes (steps ++ more)) :
      plan.shortCircuit codes number = (steps.map JobStep.number ++ (right.shortCircuit codes next).1,
        (right.shortCircuit codes next).2) := by
    have result := first.finished alive codes returned.left
    have goesOn : goes (left.shortCircuit codes number).2 := by
      rw [result]
      exact going
    rw [operator.evaluates codes, if_pos goesOn, result]
  exact {
    history := by rw [second.history, first.history, List.append_assoc]
    placed := List.forall_mem_append.mpr ⟨first.placed_left operator, fun step member => by
      obtain ⟨place, isNext, inside⟩ := second.placed step member
      refine ⟨left.pipelines.length + place, by rw [isNext, operator.following, Nat.add_assoc], ?_⟩
      rw [operator.pipelines, List.getElem?_append_right (Nat.le_add_right _ _), Nat.add_sub_cancel_left,
        inside]⟩
    ordered := List.pairwise_append.mpr ⟨first.ordered, second.ordered, fun earlier before later behind => by
      obtain ⟨place, isFirst, inside⟩ := first.placed earlier before
      obtain ⟨place', isSecond, -⟩ := second.placed later behind
      have bound := (List.getElem?_eq_some_iff.mp inside).1
      have start := operator.following
      omega⟩
    threaded := first.threaded.append (first.snapshot ▸ second.threaded)
    snapshot := by rw [second.snapshot, first.snapshot, List.foldl_append]
    finished := fun alive codes returned => by
      rw [whole codes returned, second.finished alive codes returned.right, List.map_append]
    stopped := fun killed => by
      obtain ⟨unavailable, ran⟩ := second.stopped killed
      refine ⟨unavailable, fun codes returned => ?_⟩
      rw [whole codes returned, List.map_append]
      exact (List.prefix_append_right_inj _).mpr (ran codes returned.right)
    alive := fun ended => List.forall_mem_append.mpr ⟨first.alive alive, second.alive ended⟩
    killed := fun killed => by
      obtain ⟨front, last, rfl, isKilled, others⟩ := second.killed killed
      exact ⟨steps ++ front, last, (List.append_assoc ..).symm, isKilled,
        List.forall_mem_append.mpr ⟨first.alive alive, others⟩⟩ }

theorem operator_and (left right : JobPlan) (number : ℕ) :
    Operator (.and left right) left right (· = 0) number (number + left.pipelines.length) :=
  ⟨fun _ => rfl, rfl, rfl⟩

theorem operator_or (left right : JobPlan) (number : ℕ) :
    Operator (.or left right) left right (· ≠ 0) number (number + left.pipelines.length) :=
  ⟨fun _ => rfl, rfl, rfl⟩

end Operators

section Plans

variable {fs : FileSystem} {spawn : ℕ → List (List String) → EnvSnapshot → Option SpawnedPipeline}

theorem runJobPlanStreaming_killed (number : ℕ) (plan : JobPlan) {context : StreamingContext}
    (killed : context.wasKilled = true) :
    runJobPlanStreaming fs spawn number plan context = (exitCodeUnavailable, context) := by
  cases plan <;> rw [runJobPlanStreaming, if_pos killed]

/-- A plan is evaluated from any context that is not killed. -/
theorem runJobPlanStreaming_evaluation (plan : JobPlan) (number : ℕ) {before : StreamingContext}
    (running : before.wasKilled = false) :
    ∃ steps, Evaluation fs number plan before steps (runJobPlanStreaming fs spawn number plan before).1
      (runJobPlanStreaming fs spawn number plan before).2 := by
  have alive : ¬ before.wasKilled = true := by simp [running]
  induction plan generalizing number before with
  | pipeline body =>
    rw [runJobPlanStreaming, if_neg alive]
    exact runPipelineStreaming_evaluation number body running
  | and left right ihl ihr =>
    obtain ⟨steps, first⟩ := ihl number running alive
    rw [runJobPlanStreaming, if_neg alive]
    dsimp only
    split_ifs with goes
    · obtain ⟨more, second⟩ := ihr (number + left.pipelines.length) goes.2 (by simp [goes.2])
      exact ⟨steps ++ more, .continued (operator_and left right number) first goes.2 goes.1 second⟩
    · exact ⟨steps, .decided (operator_and left right number) first fun ended zero => goes ⟨zero, ended⟩⟩
  | or left right ihl ihr =>
    obtain ⟨steps, first⟩ := ihl number running alive
    rw [runJobPlanStreaming, if_neg alive]
    dsimp only
    split_ifs with goes
    · obtain ⟨more, second⟩ := ihr (number + left.pipelines.length) goes.2 (by simp [goes.2])
      exact ⟨steps ++ more, .continued (operator_or left right number) first goes.2 goes.1 second⟩
    · exact ⟨steps, .decided (operator_or left right number) first fun ended fails => goes ⟨fails, ended⟩⟩

/-- The codes of a job are those that its steps returned; there is one for each pipeline that was run. -/
theorem exists_returned {steps : List JobStep}
    (ordered : steps.Pairwise fun earlier later => earlier.number < later.number) :
    ∃ codes, Returned codes steps := by
  induction steps with
  | nil => exact ⟨fun _ => 0, fun step member => absurd member List.not_mem_nil⟩
  | cons head steps ih =>
    obtain ⟨above, ordered⟩ := List.pairwise_cons.mp ordered
    obtain ⟨codes, returned⟩ := ih ordered
    refine ⟨Function.update codes head.number head.code, fun step member alive => ?_⟩
    rcases List.mem_cons.mp member with rfl | later
    · exact Function.update_self ..
    · rw [Function.update_of_ne (above step later).ne', returned step later alive]

end Plans

end CueShell
