import CueShell.Proofs.ChainGrammar

/-! # Operators between operands

Which lists of words and operators are the pieces of some chain is a condition on neighbours: every
operator except a pipe stands directly between two pieces that bind more tightly. If that holds of
pipes as well, the pipelines of the chain are well formed.
-/

namespace CueShell

/-- Every piece of the given level or a looser one stands directly between two tighter ones. -/
def Separated (level : ℕ) (pieces : List Piece) : Prop :=
  pieces ≠ [] ∧ ∀ front op back, pieces = front ++ op :: back → level ≤ op.level →
    (∃ piece ∈ front.getLast?, piece.level < level) ∧ ∃ piece ∈ back.head?, piece.level < level

/-- Every segment has words, and exactly the last one lacks a pipe. -/
def Pipeline.WellFormed (pipeline : Pipeline) : Prop :=
  ∃ front last, pipeline.segments = front ++ [last] ∧ last.command ≠ [] ∧ last.pipeToNext = none ∧
    ∀ segment ∈ front, segment.command ≠ [] ∧ segment.pipeToNext ≠ none

/-- Every pipeline of a chain, left to right. -/
def ChainNode.pipelines : ChainNode → List Pipeline
  | .leaf plan => plan.pipelines
  | .serial left _ right => left.pipelines ++ right.pipelines
  | .parallel left _ right => left.pipelines ++ right.pipelines

section Separated

variable {level : ℕ} {pieces left right : List Piece} {op : Piece}

theorem separated_of_tight (nonempty : pieces ≠ []) (tight : ∀ piece ∈ pieces, piece.level < level) :
    Separated level pieces := by
  refine ⟨nonempty, fun front op back split loose => ?_⟩
  have below := tight op (by simp [split])
  exact absurd loose (Nat.not_le.mpr below)

/-- Two separated lists can be joined by an operator. -/
theorem Separated.join (first : Separated level left) (loose : level ≤ op.level)
    (second : Separated level right) : Separated level (left ++ op :: right) := by
  -- the ends of both sides are tight, since nothing stands beyond them
  have ends : ∃ piece ∈ left.getLast?, piece.level < level := by
    obtain ⟨front, last, rfl⟩ := left.eq_nil_or_concat'.resolve_left first.1
    refine ⟨last, by simp, Nat.lt_of_not_le fun high => ?_⟩
    obtain ⟨_, none, -⟩ := (first.2 front last [] rfl high).2
    simp at none
  have starts : ∃ piece ∈ right.head?, piece.level < level := by
    obtain ⟨head, back, rfl⟩ := List.exists_cons_of_ne_nil second.1
    refine ⟨head, by simp, Nat.lt_of_not_le fun high => ?_⟩
    obtain ⟨_, none, -⟩ := (second.2 [] head back rfl high).1
    simp at none
  refine ⟨by simp, fun front other back split high => ?_⟩
  rcases List.append_eq_append_iff.mp split with ⟨between, rfl, rest⟩ | ⟨between, rfl, rest⟩
  · cases between with
    | nil =>
      obtain ⟨rfl, rfl⟩ : op = other ∧ right = back := by simpa using rest
      exact ⟨by simpa using ends, starts⟩
    | cons head between =>
      obtain ⟨rfl, rfl⟩ : op = head ∧ right = between ++ other :: back := by simpa using rest
      obtain ⟨⟨piece, last, below⟩, behind⟩ := second.2 between other back rfl high
      refine ⟨⟨piece, ?_, below⟩, behind⟩
      rw [Option.mem_def] at last ⊢
      simp [List.getLast?_append, List.getLast?_cons, last]
  · cases between with
    | nil =>
      obtain ⟨rfl, rfl⟩ : other = op ∧ back = right := by simpa using rest
      exact ⟨by simpa using ends, starts⟩
    | cons head between =>
      obtain ⟨rfl, rfl⟩ : other = head ∧ back = between ++ op :: right := by simpa using rest
      obtain ⟨before, ⟨piece, first, below⟩⟩ := first.2 front other between rfl high
      refine ⟨before, piece, ?_, below⟩
      rw [Option.mem_def] at first ⊢
      simp [List.head?_append, first]

/-- Both sides of an operator are separated. -/
theorem Separated.sides (separated : Separated level (left ++ op :: right)) (loose : level ≤ op.level) :
    Separated level left ∧ Separated level right := by
  obtain ⟨⟨last, atEnd, -⟩, ⟨head, atStart, -⟩⟩ := separated.2 left op right rfl loose
  refine ⟨⟨fun none => by simp [none] at atEnd, ?_⟩, ⟨fun none => by simp [none] at atStart, ?_⟩⟩
  · rintro front other back rfl high
    obtain ⟨before, ⟨piece, first, below⟩⟩ :=
      separated.2 front other (back ++ op :: right) (by simp) high
    refine ⟨before, piece, ?_, below⟩
    cases back with
    | nil =>
      obtain rfl : op = piece := by simpa using first
      exact absurd loose (Nat.not_le.mpr below)
    | cons head back => simpa using first
  · rintro front other back rfl high
    obtain ⟨⟨piece, last, below⟩, behind⟩ :=
      separated.2 (left ++ op :: front) other back (by simp) high
    refine ⟨⟨piece, ?_, below⟩, behind⟩
    rcases List.eq_nil_or_concat' front with rfl | ⟨front, last, rfl⟩
    · obtain rfl : op = piece := by simpa using last
      exact absurd loose (Nat.not_le.mpr below)
    · simpa [List.getLast?_cons] using last

/-- Words between all operators separate the looser operators as well. -/
theorem Separated.mono {high : ℕ} (separated : Separated level pieces) (le : level ≤ high) :
    Separated high pieces := by
  refine ⟨separated.1, fun front op back split loose => ?_⟩
  obtain ⟨⟨last, atEnd, below⟩, ⟨head, atStart, after⟩⟩ :=
    separated.2 front op back split (Nat.le_trans le loose)
  exact ⟨⟨last, atEnd, Nat.lt_of_lt_of_le below le⟩, ⟨head, atStart, Nat.lt_of_lt_of_le after le⟩⟩

/-- Either nothing is loose, or the list ends in tight pieces after a last loose one. -/
theorem tight_or_last_loose (level : ℕ) (pieces : List Piece) :
    (∀ piece ∈ pieces, piece.level < level) ∨
      ∃ front op run, pieces = front ++ op :: run ∧ level ≤ op.level ∧
        ∀ piece ∈ run, piece.level < level := by
  induction pieces with
  | nil => exact .inl (by simp)
  | cons head pieces ih =>
    rcases ih with tight | ⟨front, op, run, rfl, loose, tight⟩
    · rcases Nat.lt_or_ge head.level level with below | high
      · exact .inl (by simpa [below] using tight)
      · exact .inr ⟨[], head, pieces, rfl, high, tight⟩
    · exact .inr ⟨head :: front, op, run, rfl, loose, tight⟩

end Separated

section Build

variable {α Op : Type} {Operand : α → Prop} {combine : α → Op → α → α} {pieces : α → List Piece}
variable {opOf : Token → Option Op} {opPiece : Op → Piece} {level : ℕ}

/-- What can be appended to every operand can be appended to a nest of operands. -/
theorem LeftNested.extend (levels : Parser.Level opOf combine opPiece level pieces) {extra : List Piece}
    (grow : ∀ a, Operand a → ∃ b, Operand b ∧ pieces b = pieces a ++ extra) {whole : α}
    (nested : LeftNested Operand combine whole) :
    ∃ larger, LeftNested Operand combine larger ∧ pieces larger = pieces whole ++ extra := by
  cases nested with
  | operand good =>
    obtain ⟨larger, still, same⟩ := grow _ good
    exact ⟨larger, .operand still, same⟩
  | @combine left right op nested good =>
    obtain ⟨larger, still, same⟩ := grow _ good
    exact ⟨combine left op larger, .combine op nested still,
      by simp [levels.pieces_combine, same]⟩

/-- A nest of operands takes one more operator and operand. -/
theorem LeftNested.snoc (levels : Parser.Level opOf combine opPiece level pieces) {whole last : α}
    (nested : LeftNested Operand combine whole) (op : Op) (good : Operand last) :
    ∃ larger, LeftNested Operand combine larger ∧
      pieces larger = pieces whole ++ opPiece op :: pieces last :=
  ⟨combine whole op last, .combine op nested good, levels.pieces_combine whole op last⟩

/-- Words and pipes are the pieces of a pipeline, whatever their order. -/
theorem exists_pipeline {run : List Piece} (nonempty : run ≠ [])
    (tight : ∀ piece ∈ run, piece.level < 2) :
    ∃ plan : JobPlan, plan.IsPipeline ∧ plan.pieces = run := by
  suffices segments : ∃ segments, segmentsParsed segments ∧ segments.flatMap PipeSegment.pieces = run by
    obtain ⟨segments, parsed, same⟩ := segments
    exact ⟨.pipeline ⟨segments⟩, parsed, same⟩
  induction run with
  | nil => exact absurd rfl nonempty
  | cons piece run ih =>
    obtain ⟨low, others⟩ := List.forall_mem_cons.mp tight
    cases piece with
    | word text =>
      rcases run.eq_nil_or_concat' with rfl | ⟨_, _, more⟩
      · exact ⟨[⟨[text], none⟩], fun _ => by simp, rfl⟩
      · obtain ⟨segments, parsed, same⟩ := ih (by simp [more]) others
        cases segments with
        | nil => exact parsed.elim
        | cons segment rest =>
          refine ⟨⟨text :: segment.command, segment.pipeToNext⟩ :: rest, ?_, ?_⟩
          · cases rest with
            | nil => exact fun _ => by simp
            | cons next rest => exact parsed
          · rw [← same]
            simp [PipeSegment.pieces]
    | pipe op =>
      rcases run.eq_nil_or_concat' with rfl | ⟨_, _, more⟩
      · exact ⟨[⟨[], some op⟩], fun none => by simp at none, rfl⟩
      · obtain ⟨segments, parsed, same⟩ := ih (by simp [more]) others
        cases segments with
        | nil => exact parsed.elim
        | cons segment rest =>
          refine ⟨⟨[], some op⟩ :: segment :: rest, ⟨by simp, parsed⟩, ?_⟩
          rw [← same]
          simp [PipeSegment.pieces]
    | and | or => simp [Piece.level] at low
    | parallel op | serial op => simp [Piece.level] at low

theorem JobPlan.IsPipeline.isJob {plan : JobPlan} (good : plan.IsPipeline) :
    (ChainNode.leaf plan).IsJob :=
  LeftNested.operand good

theorem JobPlan.IsPipeline.isParallel {plan : JobPlan} (good : plan.IsPipeline) :
    (ChainNode.leaf plan).IsParallel :=
  .operand good.isJob

/-- A logical operator goes into the last leaf. -/
theorem ChainNode.IsJob.snoc {job : ChainNode} (isJob : job.IsJob) (op : Parser.LogicOp) {plan : JobPlan}
    (good : plan.IsPipeline) : ∃ larger : ChainNode, larger.IsJob ∧ larger.pieces =
      job.pieces ++ (match op with | .and => Piece.and | .or => Piece.or) :: plan.pieces := by
  cases job with
  | leaf first =>
    obtain ⟨larger, still, same⟩ := LeftNested.snoc Parser.logicLevel isJob op good
    exact ⟨.leaf larger, still, same⟩
  | serial left op right => exact isJob.elim
  | parallel left op right => exact isJob.elim

/-- A parsed chain takes one more operator and pipeline; where it goes depends on the operator. -/
theorem ChainNode.Parsed.snoc {node : ChainNode} (parsed : node.Parsed) {op : Piece} (loose : 2 ≤ op.level)
    {plan : JobPlan} (good : plan.IsPipeline) :
    ∃ larger : ChainNode, larger.Parsed ∧ larger.pieces = node.pieces ++ op :: plan.pieces := by
  cases op with
  | word text => simp [Piece.level] at loose
  | pipe op => simp [Piece.level] at loose
  | and =>
    exact parsed.extend Parser.serialLevel fun group isGroup =>
      isGroup.extend Parser.parallelLevel fun job isJob => isJob.snoc .and good
  | or =>
    exact parsed.extend Parser.serialLevel fun group isGroup =>
      isGroup.extend Parser.parallelLevel fun job isJob => isJob.snoc .or good
  | parallel op =>
    exact parsed.extend Parser.serialLevel fun group isGroup =>
      isGroup.snoc Parser.parallelLevel op good.isJob
  | serial op => exact LeftNested.snoc Parser.serialLevel parsed op good.isParallel

/-- Separated pieces are the pieces of some chain. -/
theorem Separated.exists_parsed {pieces : List Piece} (separated : Separated 2 pieces) :
    ∃ node : ChainNode, node.Parsed ∧ node.pieces = pieces := by
  -- on the length: the last loose operator splits off a pipeline
  induction size : pieces.length using Nat.strongRecOn generalizing pieces with
  | ind size ih =>
    rcases tight_or_last_loose 2 pieces with tight | ⟨front, op, run, rfl, loose, tight⟩
    · obtain ⟨plan, good, same⟩ := exists_pipeline separated.1 tight
      exact ⟨.leaf plan, .operand good.isParallel, same⟩
    · obtain ⟨first, last⟩ := separated.sides loose
      obtain ⟨node, parsed, rfl⟩ := ih front.length (by simp [← size]) first rfl
      obtain ⟨plan, good, rfl⟩ := exists_pipeline last.1 tight
      exact parsed.snoc loose good

/-- A nest of separated operands is separated. -/
theorem LeftNested.separated (levels : Parser.Level opOf combine opPiece level pieces)
    {bound : ℕ} (loose : bound ≤ level) (base : ∀ a, Operand a → Separated bound (pieces a)) {whole : α}
    (nested : LeftNested Operand combine whole) : Separated bound (pieces whole) := by
  induction nested with
  | operand good => exact base _ good
  | combine op nested good ih =>
    rw [levels.pieces_combine]
    exact ih.join (by rwa [levels.level_eq]) (base _ good)

/-- A property of pieces that holds of both sides of an operator reaches every operand. -/
theorem LeftNested.induct_separated (levels : Parser.Level opOf combine opPiece level pieces)
    {bound : ℕ} (loose : bound ≤ level) {motive : α → Prop}
    (base : ∀ a, Operand a → Separated bound (pieces a) → motive a)
    (step : ∀ left op right, motive left → motive right → motive (combine left op right)) {whole : α}
    (nested : LeftNested Operand combine whole) (separated : Separated bound (pieces whole)) :
    motive whole := by
  induction nested with
  | operand good => exact base _ good separated
  | @combine left right op nested good ih =>
    rw [levels.pieces_combine] at separated
    obtain ⟨first, second⟩ := separated.sides (by rwa [levels.level_eq])
    exact step left op right (ih first) (base right good second)

theorem segmentsParsed.separated {segments : List PipeSegment} (parsed : segmentsParsed segments) :
    Separated 2 (segments.flatMap PipeSegment.pieces) := by
  refine separated_of_tight ?_ ?_
  · match segments, parsed with
    | [segment], words =>
      cases pipe : segment.pipeToNext with
      | none => simp [PipeSegment.pieces, words pipe]
      | some op => simp [PipeSegment.pieces, pipe]
    | segment :: next :: rest, ⟨piped, _⟩ =>
      obtain ⟨op, pipe⟩ := Option.ne_none_iff_exists'.mp piped
      simp [PipeSegment.pieces, pipe]
  · intro piece member
    obtain ⟨segment, -, inside⟩ := List.mem_flatMap.mp member
    rcases List.mem_append.mp inside with word | pipe
    · obtain ⟨text, -, rfl⟩ := List.mem_map.mp word
      simp [Piece.level]
    · obtain ⟨op, -, rfl⟩ : ∃ op, segment.pipeToNext = some op ∧ Piece.pipe op = piece := by
        simpa using pipe
      simp [Piece.level]

/-- In the pieces of a chain, only a pipe may lack an operand. -/
theorem ChainNode.Parsed.separated {node : ChainNode} (parsed : node.Parsed) :
    Separated 2 node.pieces := by
  refine LeftNested.separated Parser.serialLevel (by omega) (fun group isGroup => ?_) parsed
  refine LeftNested.separated Parser.parallelLevel (by omega) (fun job isJob => ?_) isGroup
  cases job with
  | serial left op right => exact isJob.elim
  | parallel left op right => exact isJob.elim
  | leaf plan =>
    refine LeftNested.separated Parser.logicLevel (Nat.le_refl 2) (fun plan isPipeline => ?_) isJob
    cases plan with
    | pipeline body => exact segmentsParsed.separated isPipeline
    | and left right => exact isPipeline.elim
    | or left right => exact isPipeline.elim

/-- A pipeline whose pipes have operands is well formed. -/
theorem segmentsParsed.wellFormed {segments : List PipeSegment} (parsed : segmentsParsed segments)
    (separated : Separated 1 (segments.flatMap PipeSegment.pieces)) :
    Pipeline.WellFormed ⟨segments⟩ := by
  -- the words in front of a pipe are one side of it
  have sides (words : List String) (op : PipeOp) (rest : List Piece)
      (separated : Separated 1 (words.map .word ++ .pipe op :: rest)) : words ≠ [] ∧ Separated 1 rest := by
    obtain ⟨first, second⟩ := separated.sides (Nat.le_refl 1)
    exact ⟨fun none => first.1 (by simp [none]), second⟩
  match segments, parsed with
  | [⟨words, none⟩], nonempty => exact ⟨[], ⟨words, none⟩, rfl, nonempty rfl, rfl, by simp⟩
  | [⟨words, some op⟩], _ =>
    have none := (sides words op [] (by simpa [PipeSegment.pieces] using separated)).2
    exact absurd rfl none.1
  | ⟨words, some op⟩ :: next :: rest, ⟨_, later⟩ =>
    obtain ⟨nonempty, others⟩ :=
      sides words op ((next :: rest).flatMap PipeSegment.pieces)
        (by simpa [PipeSegment.pieces] using separated)
    obtain ⟨front, last, split, lastWords, lastPipe, fronts⟩ := segmentsParsed.wellFormed later others
    refine ⟨⟨words, some op⟩ :: front, last, by simpa using split, lastWords, lastPipe, ?_⟩
    exact List.forall_mem_cons.mpr ⟨⟨nonempty, by simp⟩, fronts⟩
  | ⟨words, none⟩ :: next :: rest, ⟨piped, _⟩ => exact absurd rfl piped

/-- If every operator of a chain stands between words, its pipelines are well formed. -/
theorem ChainNode.Parsed.wellFormed {node : ChainNode} (parsed : node.Parsed)
    (separated : Separated 1 node.pieces) : ∀ pipeline ∈ node.pipelines, pipeline.WellFormed := by
  have both {left right : List Pipeline} (first : ∀ pipeline ∈ left, pipeline.WellFormed)
      (second : ∀ pipeline ∈ right, pipeline.WellFormed) :
      ∀ pipeline ∈ left ++ right, pipeline.WellFormed :=
    List.forall_mem_append.mpr ⟨first, second⟩
  let Good (node : ChainNode) : Prop := ∀ pipeline ∈ node.pipelines, pipeline.WellFormed
  refine parsed.induct_separated (motive := Good) Parser.serialLevel (by omega) (fun group isGroup within => ?_)
    (fun _ _ _ => both) separated
  refine isGroup.induct_separated (motive := Good) Parser.parallelLevel (by omega) (fun job isJob within => ?_)
    (fun _ _ _ => both) within
  cases job with
  | serial left op right => exact isJob.elim
  | parallel left op right => exact isJob.elim
  | leaf plan =>
    let GoodJob (plan : JobPlan) : Prop := ∀ pipeline ∈ plan.pipelines, pipeline.WellFormed
    refine LeftNested.induct_separated (motive := GoodJob) Parser.logicLevel (by omega) (fun plan isPipeline within => ?_)
      (fun left op right first second => ?_) isJob within
    · cases plan with
      | pipeline body =>
        exact List.forall_mem_singleton.mpr (segmentsParsed.wellFormed isPipeline within)
      | and left right => exact isPipeline.elim
      | or left right => exact isPipeline.elim
    · cases op <;> exact both first second

end Build

end CueShell
