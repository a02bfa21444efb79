import CueShell.Proofs.ChainGrammar

/-! # The printed text of a chain

A blank followed by the printed chain is a sequence of pieces, each with one or more blanks in
front of it. Two blanks stand only in front of the pipe of a segment without words.
-/

namespace CueShell

/-- A piece with the number of blanks in front of it beyond the first. -/
abbrev SpacedPiece := ℕ × Piece

/-- The text of spaced pieces. -/
def spread (pieces : List SpacedPiece) : List Char :=
  pieces.flatMap fun (extra, piece) => List.replicate (extra + 1) ' ' ++ piece.text.toList

@[simp] theorem spread_append (first second : List SpacedPiece) :
    spread (first ++ second) = spread first ++ spread second := by
  simp [spread]

theorem spread_cons (extra : ℕ) (piece : Piece) (rest : List SpacedPiece) :
    spread ((extra, piece) :: rest) =
      List.replicate (extra + 1) ' ' ++ piece.text.toList ++ spread rest := by
  simp [spread]

def PipeSegment.spaced (segment : PipeSegment) : List SpacedPiece :=
  segment.command.map (fun word => (0, .word word)) ++
    (segment.pipeToNext.map fun op =>
      ((if segment.command = [] then 1 else 0, .pipe op) : SpacedPiece)).toList

def JobPlan.spaced : JobPlan → List SpacedPiece
  | .pipeline body => body.segments.flatMap PipeSegment.spaced
  | .and left right => left.spaced ++ (0, .and) :: right.spaced
  | .or left right => left.spaced ++ (0, .or) :: right.spaced

def ChainNode.spaced : ChainNode → List SpacedPiece
  | .leaf plan => plan.spaced
  | .serial left op right => left.spaced ++ (0, .serial op) :: right.spaced
  | .parallel left op right => left.spaced ++ (0, .parallel op) :: right.spaced

theorem PipeSegment.spaced_snd (segment : PipeSegment) : segment.spaced.map Prod.snd = segment.pieces := by
  obtain ⟨command, pipe⟩ := segment
  cases pipe <;> simp [PipeSegment.spaced, PipeSegment.pieces]

theorem JobPlan.spaced_snd (plan : JobPlan) : plan.spaced.map Prod.snd = plan.pieces := by
  induction plan with
  | pipeline body =>
    simp [JobPlan.spaced, JobPlan.pieces, Pipeline.pieces, List.map_flatMap, PipeSegment.spaced_snd]
  | and left right ihl ihr => simp [JobPlan.spaced, JobPlan.pieces, ihl, ihr]
  | or left right ihl ihr => simp [JobPlan.spaced, JobPlan.pieces, ihl, ihr]

theorem ChainNode.spaced_snd (node : ChainNode) : node.spaced.map Prod.snd = node.pieces := by
  induction node with
  | leaf plan => exact plan.spaced_snd
  | serial left op right ihl ihr => simp [ChainNode.spaced, ChainNode.pieces, ihl, ihr]
  | parallel left op right ihl ihr => simp [ChainNode.spaced, ChainNode.pieces, ihl, ihr]

section Print

/-- A blank in front of texts joined by blanks is a blank in front of each. -/
theorem blank_intercalate {texts : List String} (nonempty : texts ≠ []) :
    ' ' :: (" ".intercalate texts).toList = texts.flatMap fun text => ' ' :: text.toList := by
  induction texts with
  | nil => exact (nonempty rfl).elim
  | cons text rest ih =>
    cases rest with
    | nil => simp
    | cons next rest =>
      have tail := ih (List.cons_ne_nil _ _)
      rw [String.intercalate_cons_cons, List.flatMap_cons, ← tail]
      simp

/-- A segment that prints something. -/
def PipeSegment.Visible (segment : PipeSegment) : Prop :=
  segment.command ≠ [] ∨ segment.pipeToNext ≠ none

theorem segmentsParsed_visible {segments : List PipeSegment} (parsed : segmentsParsed segments) :
    segments ≠ [] ∧ ∀ segment ∈ segments, segment.Visible := by
  induction segments with
  | nil => exact parsed.elim
  | cons segment rest ih =>
    refine ⟨List.cons_ne_nil _ _, ?_⟩
    cases rest with
    | nil =>
      simp only [List.mem_singleton, forall_eq]
      by_cases last : segment.pipeToNext = none
      · exact .inl (parsed last)
      · exact .inr last
    | cons next rest => exact List.forall_mem_cons.mpr ⟨.inr parsed.1, (ih parsed.2).2⟩

theorem PipeSegment.spread_spaced {segment : PipeSegment} (visible : segment.Visible) :
    ' ' :: segment.display.toList = spread segment.spaced := by
  obtain ⟨command, pipe⟩ := segment
  have words : spread (command.map fun word => (0, .word word)) =
      command.flatMap fun word => ' ' :: word.toList := by
    simp [spread, List.flatMap_map, Piece.text]
  rw [PipeSegment.spaced, spread_append, words]
  by_cases empty : command = []
  · subst empty
    cases pipe with
    | none => simp [PipeSegment.Visible] at visible
    | some op => simp [PipeSegment.display, spread, Piece.text, List.replicate]
  · rw [← blank_intercalate empty]
    cases pipe with
    | none => simp [PipeSegment.display, spread]
    | some op => simp [PipeSegment.display, spread, Piece.text, empty]

theorem JobPlan.spread_pipeline {plan : JobPlan} (parsed : plan.IsPipeline) :
    ' ' :: plan.display.toList = spread plan.spaced := by
  cases plan with
  | and left right => exact parsed.elim
  | or left right => exact parsed.elim
  | pipeline body =>
    obtain ⟨nonempty, visible⟩ := segmentsParsed_visible parsed
    have shown : ∀ segment ∈ body.segments,
        ' ' :: segment.display.toList = spread segment.spaced :=
      fun segment member => PipeSegment.spread_spaced (visible segment member)
    rw [JobPlan.display, Pipeline.display, blank_intercalate (by simpa using nonempty), JobPlan.spaced,
      List.flatMap_map, List.flatMap_congr shown]
    simp [spread, List.flatMap_assoc]

theorem JobPlan.spread_spaced {plan : JobPlan} (parsed : plan.Parsed) :
    ' ' :: plan.display.toList = spread plan.spaced := by
  induction parsed with
  | operand isPipeline => exact JobPlan.spread_pipeline isPipeline
  | @combine left right op _ isPipeline ih =>
    have shown := JobPlan.spread_pipeline isPipeline
    cases op with
    | and =>
      simp [Parser.combineJobs, JobPlan.display, JobPlan.spaced, spread_cons, Piece.text, ← shown, ← ih]
    | or =>
      simp [Parser.combineJobs, JobPlan.display, JobPlan.spaced, spread_cons, Piece.text, ← shown, ← ih]

theorem ChainNode.spread_job {node : ChainNode} (parsed : node.IsJob) :
    ' ' :: node.display.toList = spread node.spaced := by
  cases node with
  | serial left op right => exact parsed.elim
  | parallel left op right => exact parsed.elim
  | leaf plan => exact JobPlan.spread_spaced parsed

theorem ChainNode.spread_parallel {node : ChainNode} (parsed : node.IsParallel) :
    ' ' :: node.display.toList = spread node.spaced := by
  induction parsed with
  | operand isJob => exact ChainNode.spread_job isJob
  | @combine left right op _ isJob ih =>
    have shown := ChainNode.spread_job isJob
    simp [ChainNode.display, ChainNode.spaced, spread_cons, Piece.text, ← shown, ← ih]

/-- A blank and the printed chain are its spaced pieces. -/
theorem ChainNode.spread_spaced {node : ChainNode} (parsed : node.Parsed) :
    ' ' :: node.display.toList = spread node.spaced := by
  induction parsed with
  | operand isParallel => exact ChainNode.spread_parallel isParallel
  | @combine left right op _ isParallel ih =>
    have shown := ChainNode.spread_parallel isParallel
    simp [ChainNode.display, ChainNode.spaced, spread_cons, Piece.text, ← shown, ← ih]

end Print

end CueShell
