import CueShell.Proofs.ChainSeparation
import CueShell.Proofs.StatementChunks

/-! # The documented grammar of chains

The header of the parser gives a grammar: chains over parallel groups over jobs over pipelines over
atoms, where an atom is a run of words or, at chain level, a chain in parentheses. The parser takes
pipes without an operand as well, and it refuses every parenthesis.
-/

namespace CueShell

/-- The rules of the documented grammar. -/
inductive Rule where
  | atom
  | pipeline
  | jobExpr
  | parallel
  | chain
deriving DecidableEq, Repr

/-- The operands of a rule `operand (operator operand)*`. -/
def Rule.operand : Rule → Option Rule
  | .chain => some .parallel
  | .parallel => some .jobExpr
  | .jobExpr => some .pipeline
  | .pipeline => some .atom
  | .atom => none

/-- The operators of a rule `operand (operator operand)*`. -/
def Rule.operators : Rule → List Token
  | .chain => [.serialThen, .serialAlways]
  | .parallel => [.parallelAll, .parallelRace]
  | .jobExpr => [.jobAnd, .jobOr]
  | .pipeline => [.pipeStdout, .pipeAll, .pipeStderr]
  | .atom => []

/-- The token sequences of a rule. A chain in parentheses stands for a whole job. -/
inductive Derives : Rule → List Token → Prop
  | words {tokens : List Token} (nonempty : tokens ≠ [])
      (words : ∀ token ∈ tokens, (Parser.wordText token).isSome) : Derives .atom tokens
  | group {tokens : List Token} :
      Derives .chain tokens → Derives .jobExpr (.groupOpen :: tokens ++ [.groupClose])
  | operand {rule sub : Rule} {tokens : List Token} (below : rule.operand = some sub) :
      Derives sub tokens → Derives rule tokens
  | more {rule sub : Rule} {left right : List Token} {op : Token} (below : rule.operand = some sub)
      (operator : op ∈ rule.operators) :
      Derives rule left → Derives sub right → Derives rule (left ++ op :: right)

/-- The chain parser reads the whole token sequence as the given chain. -/
def Parser.ReadsChain (p : Parser) (node : ChainNode) : Prop :=
  ∃ p', p.parseChain = .ok (node, p') ∧ p'.atEnd = true

/-- The token sequences of bare input, each with the input it comes from. -/
def Parser.OfBareInput (p : Parser) : Prop :=
  ∃ input tokens chunk, tokenizeForParser input = .ok tokens ∧
    chunk ∈ splitTopLevelStatements tokens input.toList ∧ p = ⟨chunk.tokens, input.toList⟩ ∧
    ∀ name, p.peek ≠ .command name

section Grammar

variable {rule sub : Rule} {tokens : List Token} {pieces : List Piece}

/-- The tokens stand for the pieces, one by one. -/
def Renders (tokens : List Token) (pieces : List Piece) : Prop :=
  tokens.map Piece.ofToken = pieces.map some

theorem spells_iff_renders {spanned : List Spanned} :
    Spells spanned pieces ↔ Renders (spanned.map Spanned.token) pieces := by
  rw [Spells, Renders, List.map_map]
  rfl

theorem Renders.split {others : List Piece} (renders : Renders tokens (pieces ++ others)) :
    ∃ front back, tokens = front ++ back ∧ Renders front pieces ∧ Renders back others := by
  rw [Renders, List.map_append] at renders
  obtain ⟨front, back, rfl, first, second⟩ := List.map_eq_append_iff.mp renders
  exact ⟨front, back, rfl, first, second⟩

theorem renders_cons {piece : Piece} (renders : Renders tokens (piece :: pieces)) :
    ∃ token rest, tokens = token :: rest ∧ Piece.ofToken token = some piece ∧ Renders rest pieces :=
  List.map_eq_cons_iff.mp renders

theorem Rule.operator_piece {op : Token} (operator : op ∈ rule.operators) :
    ∃ piece, Piece.ofToken op = some piece ∧ 1 ≤ piece.level := by
  cases rule with
  | atom => simp [Rule.operators] at operator
  | pipeline =>
    obtain rfl | rfl | rfl : op = .pipeStdout ∨ op = .pipeAll ∨ op = .pipeStderr := by
      simpa [Rule.operators] using operator
    all_goals exact ⟨_, rfl, by decide⟩
  | jobExpr =>
    obtain rfl | rfl : op = .jobAnd ∨ op = .jobOr := by simpa [Rule.operators] using operator
    all_goals exact ⟨_, rfl, by decide⟩
  | parallel =>
    obtain rfl | rfl : op = .parallelAll ∨ op = .parallelRace := by
      simpa [Rule.operators] using operator
    all_goals exact ⟨_, rfl, by decide⟩
  | chain =>
    obtain rfl | rfl : op = .serialThen ∨ op = .serialAlways := by
      simpa [Rule.operators] using operator
    all_goals exact ⟨_, rfl, by decide⟩

theorem renders_words (words : ∀ token ∈ tokens, (Parser.wordText token).isSome) :
    ∃ texts : List String, Renders tokens (texts.map .word) := by
  induction tokens with
  | nil => exact ⟨[], rfl⟩
  | cons token tokens ih =>
    obtain ⟨first, others⟩ := List.forall_mem_cons.mp words
    obtain ⟨text, found⟩ := Option.isSome_iff_exists.mp first
    obtain ⟨texts, renders⟩ := ih others
    refine ⟨text :: texts, ?_⟩
    rw [Renders, List.map_cons, renders, Parser.wordText_eq_some.mp found]
    rfl

/-- In a sentence without parentheses, every operator stands between words. -/
theorem Derives.separated (derives : Derives rule tokens) (flat : Token.groupOpen ∉ tokens) :
    ∃ pieces, Renders tokens pieces ∧ Separated 1 pieces := by
  induction derives with
  | @words tokens nonempty words =>
    obtain ⟨texts, renders⟩ := renders_words words
    refine ⟨texts.map .word, renders, separated_of_tight ?_ ?_⟩
    · rintro none
      exact nonempty (by simpa [Renders, none] using renders)
    · intro piece member
      obtain ⟨text, -, rfl⟩ := List.mem_map.mp member
      exact Nat.zero_lt_one
  | group _ _ => exact absurd (by simp) flat
  | operand below _ ih => exact ih flat
  | @more rule sub left right op below operator _ _ ihl ihr =>
    simp only [List.mem_append, List.mem_cons, not_or] at flat
    obtain ⟨first, rendersFirst, separatedFirst⟩ := ihl flat.1
    obtain ⟨second, rendersSecond, separatedSecond⟩ := ihr flat.2.2
    obtain ⟨piece, found, loose⟩ := Rule.operator_piece operator
    refine ⟨first ++ piece :: second, ?_, separatedFirst.join loose separatedSecond⟩
    rw [Renders, List.map_append, List.map_cons, rendersFirst, rendersSecond, found]
    simp

theorem derives_words {texts : List String} (nonempty : texts ≠ [])
    (renders : Renders tokens (texts.map .word)) : Derives .atom tokens := by
  refine .words ?_ ?_
  · rintro rfl
    exact nonempty (by simpa [Renders] using renders)
  · intro token member
    have found : Piece.ofToken token ∈ (texts.map Piece.word).map some := renders ▸ List.mem_map_of_mem member
    obtain ⟨text, -, same⟩ : ∃ text ∈ texts, some (Piece.word text) = Piece.ofToken token := by
      simpa using found
    simp [Parser.wordText_eq_some.mpr same.symm]

theorem derives_pipe {op : PipeOp} {token : Token} (found : Piece.ofToken token = some (.pipe op)) :
    token ∈ Rule.pipeline.operators := by
  cases token <;> simp [Piece.ofToken, Rule.operators] at found ⊢

/-- A first atom, and the tokens behind it that continue any pipeline: each further segment follows
the pipe of the one before it. -/
theorem derives_segments {front : List PipeSegment} {last : PipeSegment}
    (fronts : ∀ segment ∈ front, segment.command ≠ [] ∧ segment.pipeToNext ≠ none)
    (lastWords : last.command ≠ []) (lastPipe : last.pipeToNext = none)
    (renders : Renders tokens ((front ++ [last]).flatMap PipeSegment.pieces)) :
    ∃ first rest, tokens = first ++ rest ∧ Derives .atom first ∧
      ∀ left, Derives .pipeline left → Derives .pipeline (left ++ rest) := by
  induction front generalizing tokens with
  | nil =>
    have words : Renders tokens (last.command.map .word) := by
      simpa [PipeSegment.pieces, lastPipe] using renders
    exact ⟨tokens, [], by simp, derives_words lastWords words, fun left good => by simpa using good⟩
  | cons segment front ih =>
    obtain ⟨⟨nonempty, piped⟩, others⟩ := List.forall_mem_cons.mp fronts
    obtain ⟨op, pipe⟩ := Option.ne_none_iff_exists'.mp piped
    have parts : Renders tokens (segment.command.map .word ++
        .pipe op :: (front ++ [last]).flatMap PipeSegment.pieces) := by
      simpa [PipeSegment.pieces, pipe] using renders
    obtain ⟨first, back, rfl, words, after⟩ := parts.split
    obtain ⟨token, rest, rfl, found, later⟩ := renders_cons after
    obtain ⟨second, rest, rfl, atom, extend⟩ := ih others later
    refine ⟨first, token :: (second ++ rest), rfl, derives_words nonempty words, fun left good => ?_⟩
    have longer := extend _ (.more rfl (derives_pipe found) good atom)
    simpa using longer

/-- The words and pipes of a well-formed pipeline are a sentence. -/
theorem segmentsParsed.derives {segments : List PipeSegment} (parsed : segmentsParsed segments)
    (separated : Separated 1 (segments.flatMap PipeSegment.pieces))
    (renders : Renders tokens (segments.flatMap PipeSegment.pieces)) : Derives .pipeline tokens := by
  obtain ⟨front, last, rfl, lastWords, lastPipe, fronts⟩ := parsed.wellFormed separated
  obtain ⟨first, rest, rfl, atom, extend⟩ := derives_segments fronts lastWords lastPipe renders
  exact extend first (.operand rfl atom)

variable {α Op : Type} {Operand : α → Prop} {combine : α → Op → α → α} {piecesOf : α → List Piece}
variable {opOf : Token → Option Op} {opPiece : Op → Piece} {level : ℕ}

/-- If the operands of a rule are sentences, so is a nest of them. -/
theorem LeftNested.derives (levels : Parser.Level opOf combine opPiece level piecesOf) (loose : 1 ≤ level)
    (below : rule.operand = some sub)
    (operators : ∀ token op, Piece.ofToken token = some (opPiece op) → token ∈ rule.operators)
    (base : ∀ a tokens, Operand a → Separated 1 (piecesOf a) → Renders tokens (piecesOf a) →
      Derives sub tokens) {whole : α} (nested : LeftNested Operand combine whole)
    (separated : Separated 1 (piecesOf whole)) (renders : Renders tokens (piecesOf whole)) :
    Derives rule tokens := by
  induction nested generalizing tokens with
  | operand good => exact .operand below (base _ _ good separated renders)
  | @combine left right op nested good ih =>
    rw [levels.pieces_combine] at separated renders
    obtain ⟨first, second⟩ := separated.sides (by rwa [levels.level_eq])
    obtain ⟨front, back, rfl, rendersFirst, rendersBack⟩ := renders.split
    obtain ⟨token, rest, rfl, found, rendersRest⟩ := renders_cons rendersBack
    exact .more below (operators token op found) (ih first rendersFirst)
      (base right rest good second rendersRest)

/-- The pieces of a chain are a sentence if every operator stands between words. -/
theorem ChainNode.Parsed.derives {node : ChainNode} (parsed : node.Parsed)
    (separated : Separated 1 node.pieces) (renders : Renders tokens node.pieces) :
    Derives .chain tokens := by
  refine LeftNested.derives Parser.serialLevel (by omega) rfl ?_ (fun group tokens isGroup => ?_)
    parsed separated renders
  · intro token op found
    cases token <;> simp [Piece.ofToken, Rule.operators] at found ⊢
  refine LeftNested.derives Parser.parallelLevel (by omega) rfl ?_ (fun job tokens isJob => ?_) isGroup
  · intro token op found
    cases token <;> simp [Piece.ofToken, Rule.operators] at found ⊢
  cases job with
  | serial left op right => exact isJob.elim
  | parallel left op right => exact isJob.elim
  | leaf plan =>
    refine LeftNested.derives Parser.logicLevel (by omega) rfl ?_ (fun plan tokens isPipeline => ?_) isJob
    · intro token op found
      cases op <;> cases token <;> simp [Piece.ofToken, Rule.operators] at found ⊢
    cases plan with
    | pipeline body => exact segmentsParsed.derives isPipeline
    | and left right => exact isPipeline.elim
    | or left right => exact isPipeline.elim

end Grammar

section Parsing

variable {p p' : Parser} {node : ChainNode} {pieces : List Piece}

theorem Parser.tokens_of_atEnd (ended : p.atEnd = true)
    (content : ∀ spanned ∈ p.tokens, spanned.token ≠ .eof) : p.tokens = [] := by
  obtain ⟨tokens, input⟩ := p
  cases tokens with
  | nil => rfl
  | cons spanned tokens =>
    exact absurd (by simpa [Parser.atEnd, Parser.peek] using ended) (content spanned (by simp))

theorem Parser.ReadsChain.spells (reads : p.ReadsChain node)
    (content : ∀ spanned ∈ p.tokens, spanned.token ≠ .eof) :
    Spells p.tokens node.pieces ∧ node.Parsed := by
  obtain ⟨p', parsed, ended⟩ := reads
  obtain ⟨front, split, -, spells, good⟩ := Parser.parseChain_reads _ _ _ parsed
  have none : p'.tokens = [] :=
    Parser.tokens_of_atEnd ended fun spanned member => content spanned (by simp [split, member])
  rw [split, none, List.append_nil]
  exact ⟨spells, good⟩

theorem Parser.readsChain_of_parsed (parsed : node.Parsed) (spells : Spells p.tokens node.pieces) :
    p.parseChain = .ok (node, ⟨[], p.input⟩) := by
  have accepted := Parser.parseChain_accepts node p.tokens [] [] p.input parsed spells spells_nil
    (by simp [Stops])
  simpa using accepted

/-- The chain parser reads a token sequence to its end exactly if it spells pieces in which only a
pipe may lack an operand. -/
theorem Parser.readsChain_iff (content : ∀ spanned ∈ p.tokens, spanned.token ≠ .eof) :
    (∃ node, p.ReadsChain node) ↔ ∃ pieces, Spells p.tokens pieces ∧ Separated 2 pieces := by
  constructor
  · rintro ⟨node, reads⟩
    obtain ⟨spells, parsed⟩ := reads.spells content
    exact ⟨node.pieces, spells, parsed.separated⟩
  · rintro ⟨pieces, spells, separated⟩
    obtain ⟨node, parsed, rfl⟩ := separated.exists_parsed
    exact ⟨node, _, Parser.readsChain_of_parsed parsed spells, rfl⟩

theorem Parser.OfBareInput.content (bare : p.OfBareInput) :
    ∀ spanned ∈ p.tokens, spanned.token ≠ .eof := by
  obtain ⟨input, tokens, chunk, -, member, rfl, -⟩ := bare
  exact fun spanned inside => (mem_content_of_chunk member spanned inside).2

/-- The parser agrees with the documented grammar on a token sequence. -/
structure Parser.Documented (p : Parser) : Prop where
  accepts : (∃ node, p.ReadsChain node) ↔ Derives .chain (p.tokens.map Spanned.token)
  pipelines : ∀ node, p.ReadsChain node → ∀ pipeline ∈ node.pipelines, pipeline.WellFormed

end Parsing

/-- The tokens of `a |> b`. -/
def pipedTokens : List Spanned :=
  [⟨.word "a", ⟨0, 1⟩⟩, ⟨.pipeStdout, ⟨2, 4⟩⟩, ⟨.word "b", ⟨5, 6⟩⟩]

section Precedence

variable {tokens : List Spanned} {first : List String} {rest : List (Piece × List String)}

/-- The pieces of word groups with operators between them. -/
def sequencePieces (first : List String) (rest : List (Piece × List String)) : List Piece :=
  first.map .word ++ rest.flatMap fun (op, words) => op :: words.map .word

theorem separated_words {words : List String} (nonempty : words ≠ []) :
    Separated 1 (words.map Piece.word) := by
  refine separated_of_tight (by simpa using nonempty) fun piece member => ?_
  obtain ⟨text, -, rfl⟩ := List.mem_map.mp member
  exact Nat.zero_lt_one

theorem separated_sequence (nonempty : first ≠ [])
    (operands : ∀ part ∈ rest, 1 ≤ part.1.level ∧ part.2 ≠ []) :
    Separated 1 (sequencePieces first rest) := by
  induction rest generalizing first with
  | nil => simpa [sequencePieces] using separated_words nonempty
  | cons part rest ih =>
    obtain ⟨op, words⟩ := part
    obtain ⟨⟨loose, filled⟩, others⟩ := List.forall_mem_cons.mp operands
    exact (separated_words nonempty).join loose (ih filled others)

/-- A sequence of word groups and operators is read as the one tree in which pipes bind tightest,
then `&&` and `||`, then `|||` and `|?|`, then `->` and `~>`, each level to the left. -/
theorem Parser.parseChain_sequence (input : List Char) (nonempty : first ≠ [])
    (operands : ∀ part ∈ rest, 1 ≤ part.1.level ∧ part.2 ≠ [])
    (spells : Spells tokens (sequencePieces first rest)) :
    ∃ node : ChainNode, (⟨tokens, input⟩ : Parser).parseChain = .ok (node, ⟨[], input⟩) ∧
      node.pieces = sequencePieces first rest ∧ node.Parsed ∧
      (∀ pipeline ∈ node.pipelines, pipeline.WellFormed) ∧
      ∀ other : ChainNode, other.Parsed → other.pieces = sequencePieces first rest → other = node := by
  have separated := separated_sequence nonempty operands
  obtain ⟨node, parsed, same⟩ := (separated.mono (Nat.le_succ 1)).exists_parsed
  have reads (other : ChainNode) (good : other.Parsed) (pieces : other.pieces = sequencePieces first rest) :
      (⟨tokens, input⟩ : Parser).parseChain = .ok (other, ⟨[], input⟩) :=
    Parser.readsChain_of_parsed good (by rwa [pieces])
  refine ⟨node, reads node parsed same, same, parsed, parsed.wellFormed (by rwa [same]), ?_⟩
  intro other good pieces
  have both := (reads other good pieces).symm.trans (reads node parsed same)
  simpa using both

/-- The tokens of `a |> b && c -> d`. -/
def mixedTokens : List Spanned :=
  [⟨.word "a", ⟨0, 1⟩⟩, ⟨.pipeStdout, ⟨2, 4⟩⟩, ⟨.word "b", ⟨5, 6⟩⟩, ⟨.jobAnd, ⟨7, 9⟩⟩,
    ⟨.word "c", ⟨10, 11⟩⟩, ⟨.serialThen, ⟨12, 14⟩⟩, ⟨.word "d", ⟨15, 16⟩⟩]

theorem Parser.parseChain_mixed :
    ∃ node : ChainNode, (⟨mixedTokens, "a |> b && c -> d".toList⟩ : Parser).parseChain =
        .ok (node, ⟨[], "a |> b && c -> d".toList⟩) ∧
      node.pieces = sequencePieces ["a"]
        [(.pipe .stdout, ["b"]), (.and, ["c"]), (.serial .andThen, ["d"])] := by
  have spells : Spells mixedTokens (sequencePieces ["a"]
      [(.pipe .stdout, ["b"]), (.and, ["c"]), (.serial .andThen, ["d"])]) := rfl
  obtain ⟨node, parsed, pieces, -⟩ :=
    Parser.parseChain_sequence "a |> b && c -> d".toList (by simp) (by decide) spells
  exact ⟨node, parsed, pieces⟩

end Precedence

end CueShell
