import CueShell.Model.Parser.Parse

/-! # The chain grammar

A chain is spelled by a list of pieces: words and operators. The chain parser consumes exactly the
pieces of the tree it returns, that tree is nested the way the grammar says, and every tree nested
that way is returned for its own pieces.
-/

namespace CueShell

/-- A word or an operator of a chain. -/
inductive Piece where
  | word (text : String)
  | pipe (op : PipeOp)
  | and
  | or
  | parallel (op : ParallelOp)
  | serial (op : SerialOp)
deriving DecidableEq, Repr

namespace Piece

def text : Piece → String
  | .word text => text
  | .pipe op => op.display
  | .and => "&&"
  | .or => "||"
  | .parallel op => op.display
  | .serial op => op.display

/-- The piece a token stands for inside a chain. -/
def ofToken : Token → Option Piece
  | .word text => some (.word text)
  | .idRef kind number => some (.word (kind.idText number))
  | .command name => some (.word (":" ++ name))
  | .pipeStdout => some (.pipe .stdout)
  | .pipeAll => some (.pipe .stdoutStderr)
  | .pipeStderr => some (.pipe .stderrOnly)
  | .jobAnd => some .and
  | .jobOr => some .or
  | .parallelAll => some (.parallel .all)
  | .parallelRace => some (.parallel .race)
  | .serialThen => some (.serial .andThen)
  | .serialAlways => some (.serial .always)
  | _ => none

/-- How loosely a piece binds; words bind tightest. -/
def level : Piece → ℕ
  | .word _ => 0
  | .pipe _ => 1
  | .and | .or => 2
  | .parallel _ => 3
  | .serial _ => 4

end Piece

def PipeSegment.pieces (segment : PipeSegment) : List Piece :=
  segment.command.map .word ++ (segment.pipeToNext.map Piece.pipe).toList

def Pipeline.pieces (pipeline : Pipeline) : List Piece :=
  pipeline.segments.flatMap PipeSegment.pieces

def JobPlan.pieces : JobPlan → List Piece
  | .pipeline body => body.pieces
  | .and left right => left.pieces ++ .and :: right.pieces
  | .or left right => left.pieces ++ .or :: right.pieces

def ChainNode.pieces : ChainNode → List Piece
  | .leaf plan => plan.pieces
  | .serial left op right => left.pieces ++ .serial op :: right.pieces
  | .parallel left op right => left.pieces ++ .parallel op :: right.pieces

/-- A pipeline as the parser builds it: only the last segment may lack a pipe, and then it has
words. -/
def segmentsParsed : List PipeSegment → Prop
  | [] => False
  | [segment] => segment.pipeToNext = none → segment.command ≠ []
  | segment :: next :: rest => segment.pipeToNext ≠ none ∧ segmentsParsed (next :: rest)

/-- Operands combined to the left. -/
inductive LeftNested {α Op : Type} (Operand : α → Prop) (combine : α → Op → α → α) : α → Prop
  | operand {single : α} : Operand single → LeftNested Operand combine single
  | combine {left right : α} (op : Op) :
      LeftNested Operand combine left → Operand right →
        LeftNested Operand combine (combine left op right)

/-- A pipeline as the parser builds it. -/
def JobPlan.IsPipeline : JobPlan → Prop
  | .pipeline body => segmentsParsed body.segments
  | .and _ _ | .or _ _ => False

/-- `&&` and `||` over pipelines. -/
def JobPlan.Parsed : JobPlan → Prop := LeftNested JobPlan.IsPipeline Parser.combineJobs

def ChainNode.IsJob : ChainNode → Prop
  | .leaf plan => plan.Parsed
  | .serial _ _ _ | .parallel _ _ _ => False

/-- `|||` and `|?|` over jobs. -/
def ChainNode.IsParallel : ChainNode → Prop := LeftNested ChainNode.IsJob ChainNode.parallel

/-- `->` and `~>` over parallel groups. -/
def ChainNode.Parsed : ChainNode → Prop := LeftNested ChainNode.IsParallel ChainNode.serial

/-- The tokens spell the pieces, one by one. -/
def Spells (tokens : List Spanned) (pieces : List Piece) : Prop :=
  tokens.map (fun spanned => Piece.ofToken spanned.token) = pieces.map some

section Spells

variable {tokens more : List Spanned} {pieces others : List Piece} {spanned : Spanned}

@[simp] theorem spells_nil : Spells [] [] := rfl

theorem Spells.append (first : Spells tokens pieces) (second : Spells more others) :
    Spells (tokens ++ more) (pieces ++ others) := by
  simp only [Spells, List.map_append] at *
  rw [first, second]

theorem spells_cons {piece : Piece} : Spells (spanned :: tokens) (piece :: pieces) ↔
    Piece.ofToken spanned.token = some piece ∧ Spells tokens pieces := by
  simp [Spells]

theorem Spells.length (spells : Spells tokens pieces) : tokens.length = pieces.length := by
  simpa using congrArg List.length spells

theorem Spells.split (spells : Spells tokens (pieces ++ others)) :
    ∃ front back, tokens = front ++ back ∧ Spells front pieces ∧ Spells back others := by
  rw [Spells, List.map_append] at spells
  obtain ⟨front, back, rfl, first, second⟩ := List.map_eq_append_iff.mp spells
  exact ⟨front, back, rfl, first, second⟩

end Spells

/-- The next piece, if any, does not belong to an expression of the given level. -/
def Stops (level : ℕ) (pieces : List Piece) : Prop := ∀ piece ∈ pieces.head?, level < piece.level

theorem Stops.mono {low high : ℕ} {pieces : List Piece} (stops : Stops high pieces)
    (le : low ≤ high) : Stops low pieces :=
  fun piece first => Nat.lt_of_le_of_lt le (stops piece first)

namespace Parser

variable {p p' : Parser} {tokens rest : List Spanned} {pieces after : List Piece}

theorem wordText_eq_some {token : Token} {text : String} :
    wordText token = some text ↔ Piece.ofToken token = some (.word text) := by
  cases token <;> constructor <;> intro spelled <;> cases spelled <;> rfl

theorem pipeOp_eq_some {token : Token} {op : PipeOp} :
    pipeOp token = some op ↔ Piece.ofToken token = some (.pipe op) := by
  cases token <;> constructor <;> intro spelled <;> cases spelled <;> rfl

theorem pipeOp_eq_none {token : Token} {piece : Piece} (spelled : Piece.ofToken token = some piece)
    (late : 1 < piece.level) : pipeOp token = none := by
  rw [Option.eq_none_iff_forall_ne_some]
  intro op found
  rw [pipeOp_eq_some.mp found, Option.some.injEq] at spelled
  subst spelled
  simp [Piece.level] at late

section Words

/-- The leading words are consumed and spelled. -/
theorem takeWords_spells (tokens : List Spanned) :
    ∃ front, tokens = front ++ (takeWords tokens).2 ∧
      Spells front ((takeWords tokens).1.map .word) := by
  induction tokens with
  | nil => exact ⟨[], rfl, rfl⟩
  | cons spanned tokens ih =>
    rw [takeWords]
    split
    · next text found =>
      obtain ⟨front, split, spells⟩ := ih
      refine ⟨spanned :: front, congrArg (spanned :: ·) split, ?_⟩
      exact spells_cons.mpr ⟨wordText_eq_some.mp found, spells⟩
    · exact ⟨[], rfl, rfl⟩

theorem takeWords_of_spells {words : List String} (spells : Spells tokens (words.map .word))
    (stops : ∀ spanned ∈ rest.head?, wordText spanned.token = none) :
    takeWords (tokens ++ rest) = (words, rest) := by
  induction words generalizing tokens with
  | nil =>
    obtain rfl : tokens = [] := List.eq_nil_of_length_eq_zero (by simpa using spells.length)
    cases rest with
    | nil => rfl
    | cons spanned rest => simp [takeWords, stops spanned (by simp)]
  | cons word words ih =>
    cases tokens with
    | nil => simp [Spells] at spells
    | cons spanned tokens =>
      obtain ⟨spelled, tail⟩ := spells_cons.mp spells
      simp [takeWords, wordText_eq_some.mpr spelled, ih tail]

theorem wordText_none_of_stops {level : ℕ} (spells : Spells rest after) (stops : Stops level after) :
    ∀ spanned ∈ rest.head?, wordText spanned.token = none := by
  intro spanned first
  cases rest with
  | nil => simp at first
  | cons head rest =>
    obtain rfl : head = spanned := by simpa using first
    cases after with
    | nil => simp [Spells] at spells
    | cons piece after =>
      rw [Option.eq_none_iff_forall_ne_some]
      intro text found
      have spelled := (spells_cons.mp spells).1
      rw [wordText_eq_some.mp found, Option.some.injEq] at spelled
      have late := stops piece (by simp)
      simp [← spelled, Piece.level] at late

theorem parseAtomWords_ok {words : List String} (parsed : p.parseAtomWords = .ok (words, p')) :
    ∃ front, p.tokens = front ++ p'.tokens ∧ Spells front (words.map .word) ∧
      p'.input = p.input := by
  rw [parseAtomWords] at parsed
  split at parsed
  · simp [fail] at parsed
  · simp only [Except.ok.injEq, Prod.mk.injEq] at parsed
    obtain ⟨rfl, rfl⟩ := parsed
    obtain ⟨front, split, spells⟩ := takeWords_spells p.tokens
    exact ⟨front, split, spells, rfl⟩

/-- The peeked token of a spelled token list. -/
theorem peek_spelled {piece : Piece} (spells : Spells tokens (piece :: pieces)) (input : List Char) :
    Piece.ofToken (⟨tokens, input⟩ : Parser).peek = some piece := by
  cases tokens with
  | nil => simp [Spells] at spells
  | cons spanned tokens => exact (spells_cons.mp spells).1

theorem peek_nil (input : List Char) : (⟨[], input⟩ : Parser).peek = .eof := rfl

theorem peek_ne_groupOpen (spells : Spells tokens pieces) (input : List Char) :
    (⟨tokens, input⟩ : Parser).peek ≠ .groupOpen := by
  intro found
  cases pieces with
  | nil =>
    obtain rfl : tokens = [] := List.eq_nil_of_length_eq_zero (by simpa using spells.length)
    simp [peek_nil] at found
  | cons piece pieces =>
    have spelled := peek_spelled spells input
    rw [found] at spelled
    cases spelled

theorem parseAtomWords_of_spells {words : List String} {level : ℕ} (input : List Char)
    (spells : Spells tokens (words.map .word)) (restSpells : Spells rest after)
    (stops : Stops level after) :
    (⟨tokens ++ rest, input⟩ : Parser).parseAtomWords = .ok (words, ⟨rest, input⟩) := by
  rw [parseAtomWords, if_neg (peek_ne_groupOpen (spells.append restSpells) input)]
  simp [takeWords_of_spells spells (wordText_none_of_stops restSpells stops)]

end Words

theorem bind_eq_ok {ε α β : Type} {x : Except ε α} {f : α → Except ε β} {b : β} :
    (x >>= f) = .ok b ↔ ∃ a, x = .ok a ∧ f a = .ok b := by
  cases x <;> simp [bind, Except.bind]

theorem ok_bind {ε α β : Type} (a : α) (f : α → Except ε β) : (Except.ok a >>= f) = f a := rfl

section Pipeline

variable {segments tail : List PipeSegment} {words : List String} {fuel : ℕ}

/-- Segments that all feed a pipe, with or without a last segment of words. -/
theorem segmentsParsed_of_piped (piped : ∀ segment ∈ segments, segment.pipeToNext ≠ none)
    (nonempty : segments ≠ []) : segmentsParsed segments := by
  induction segments with
  | nil => exact (nonempty rfl).elim
  | cons segment rest ih =>
    obtain ⟨first, others⟩ := List.forall_mem_cons.mp piped
    cases rest with
    | nil => exact fun none => (first none).elim
    | cons next rest => exact ⟨first, ih others (List.cons_ne_nil _ _)⟩

theorem segmentsParsed_snoc (piped : ∀ segment ∈ segments, segment.pipeToNext ≠ none)
    (nonempty : words ≠ []) : segmentsParsed (segments ++ [⟨words, none⟩]) := by
  induction segments with
  | nil => exact fun _ => nonempty
  | cons segment rest ih =>
    obtain ⟨first, others⟩ := List.forall_mem_cons.mp piped
    cases rest with
    | nil => exact ⟨first, fun _ => nonempty⟩
    | cons next rest => exact ⟨first, ih others⟩

theorem peek_pipe {op : PipeOp} (found : pipeOp p.peek = some op) :
    ∃ spanned tokens, p.tokens = spanned :: tokens ∧ Piece.ofToken spanned.token = some (.pipe op) := by
  obtain ⟨tokens, input⟩ := p
  cases tokens with
  | nil => simp [peek, pipeOp] at found
  | cons spanned tokens => exact ⟨spanned, tokens, rfl, pipeOp_eq_some.mp found⟩

theorem parsePipelineLoop_ok {result : List PipeSegment}
    (parsed : parsePipelineLoop fuel segments words p = .ok (result, p'))
    (enough : p.tokens.length < fuel)
    (piped : ∀ segment ∈ segments, segment.pipeToNext ≠ none) :
    ∃ front pieces tail, p.tokens = front ++ p'.tokens ∧ p'.input = p.input ∧
      Spells front pieces ∧ result = segments ++ tail ∧
      words.map Piece.word ++ pieces = tail.flatMap PipeSegment.pieces ∧
      (result ≠ [] → segmentsParsed result) := by
  induction fuel generalizing segments words p with
  | zero => exact absurd enough (Nat.not_lt_zero _)
  | succ fuel ih =>
    rw [parsePipelineLoop] at parsed
    split at parsed
    · split_ifs at parsed with empty
      · simp only [Except.ok.injEq, Prod.mk.injEq] at parsed
        obtain ⟨rfl, rfl⟩ := parsed
        exact ⟨[], [], [], rfl, rfl, rfl, by simp, by simp [empty], segmentsParsed_of_piped piped⟩
      · simp only [Except.ok.injEq, Prod.mk.injEq] at parsed
        obtain ⟨rfl, rfl⟩ := parsed
        exact ⟨[], [], [⟨words, none⟩], rfl, rfl, rfl, rfl, by simp [PipeSegment.pieces],
          fun _ => segmentsParsed_snoc piped empty⟩
    · next op found =>
      obtain ⟨⟨next, p₁⟩, atom, loop⟩ := bind_eq_ok.mp parsed
      obtain ⟨spanned, tokens, cons, spelled⟩ := peek_pipe found
      obtain ⟨front₁, split₁, spells₁, input₁⟩ := parseAtomWords_ok atom
      have tokens₁ : tokens = front₁ ++ p₁.tokens := by simpa [advance, cons] using split₁
      have shorter : p₁.tokens.length < fuel := by
        rw [cons, tokens₁] at enough
        simp only [List.length_cons, List.length_append] at enough
        omega
      have pipedNow : ∀ segment ∈ segments ++ [⟨words, some op⟩], segment.pipeToNext ≠ none := by
        simpa [or_imp, forall_and] using piped
      obtain ⟨front₂, pieces₂, tail, split₂, input₂, spells₂, whole, spelled₂, shape⟩ :=
        ih loop shorter pipedNow
      refine ⟨spanned :: (front₁ ++ front₂), .pipe op :: (next.map Piece.word ++ pieces₂),
        ⟨words, some op⟩ :: tail, ?_, input₂.trans input₁, ?_, ?_, ?_, shape⟩
      · rw [cons, tokens₁, split₂]
        simp
      · exact spells_cons.mpr ⟨spelled, spells₁.append spells₂⟩
      · simp [whole]
      · simp [spelled₂, PipeSegment.pieces]

end Pipeline

section Complete

variable {segment : PipeSegment} {more acc : List PipeSegment} {fuel : ℕ}

theorem peek_append_of_stops {level : ℕ} (input : List Char) (spells : Spells rest after)
    (stops : Stops level after) (high : 1 ≤ level) : pipeOp (⟨rest, input⟩ : Parser).peek = none := by
  cases after with
  | nil =>
    obtain rfl : rest = [] := List.eq_nil_of_length_eq_zero (by simpa using spells.length)
    rfl
  | cons piece after =>
    exact pipeOp_eq_none (peek_spelled spells input) (Nat.lt_of_le_of_lt high (stops piece (by simp)))

theorem segmentsParsed_last (parsed : segmentsParsed (segment :: more))
    (last : segment.pipeToNext = none) : more = [] := by
  cases more with
  | nil => rfl
  | cons next more => exact (parsed.1 last).elim

/-- The words of a segment end at its pipe, or where its pipeline ends. -/
theorem stops_after_words (parsed : segmentsParsed (segment :: more)) (stops : Stops 1 after) :
    Stops 0 ((segment.pipeToNext.map Piece.pipe).toList ++ more.flatMap PipeSegment.pieces ++
      after) := by
  cases pipe : segment.pipeToNext with
  | some op => simp [Stops, Piece.level]
  | none =>
    obtain rfl : more = [] := segmentsParsed_last parsed pipe
    simpa using stops.mono (Nat.zero_le 1)

/-- After the words of a segment, the loop collects the rest of its pipeline. -/
theorem parsePipelineLoop_of_spells (input : List Char)
    (parsed : segmentsParsed (segment :: more)) (restSpells : Spells rest after)
    (stops : Stops 1 after)
    (spells : Spells tokens
      ((segment.pipeToNext.map Piece.pipe).toList ++ more.flatMap PipeSegment.pieces))
    (enough : tokens.length + rest.length < fuel) :
    parsePipelineLoop fuel acc segment.command ⟨tokens ++ rest, input⟩ =
      .ok (acc ++ segment :: more, ⟨rest, input⟩) := by
  induction more generalizing segment acc tokens fuel with
  | nil =>
    obtain ⟨words, pipe⟩ := segment
    obtain ⟨fuel, rfl⟩ : ∃ n, fuel = n + 1 := ⟨fuel - 1, by omega⟩
    cases pipe with
    | none =>
      obtain rfl : tokens = [] := List.eq_nil_of_length_eq_zero (by simpa using spells.length)
      have nonempty : words ≠ [] := parsed rfl
      simp [parsePipelineLoop, peek_append_of_stops input restSpells stops (Nat.le_refl 1), nonempty]
    | some op =>
      cases tokens with
      | nil => simp [Spells] at spells
      | cons spanned tokens =>
        obtain ⟨spelled, tail⟩ := spells_cons.mp spells
        obtain rfl : tokens = [] := List.eq_nil_of_length_eq_zero (by simpa using tail.length)
        have atom : (⟨[] ++ rest, input⟩ : Parser).parseAtomWords = .ok ([], ⟨rest, input⟩) :=
          parseAtomWords_of_spells input (by simp) restSpells stops
        obtain ⟨fuel, rfl⟩ : ∃ n, fuel = n + 1 :=
          ⟨fuel - 1, by simp only [List.length_cons] at enough; omega⟩
        have quiet := peek_append_of_stops input restSpells stops (Nat.le_refl 1)
        have found : pipeOp (⟨[spanned] ++ rest, input⟩ : Parser).peek = some op :=
          pipeOp_eq_some.mpr spelled
        rw [List.nil_append] at atom
        rw [parsePipelineLoop, found]
        simp [parsePipelineLoop, advance, atom, ok_bind, quiet]
  | cons next more ih =>
    obtain ⟨words, pipe⟩ := segment
    obtain ⟨fuel, rfl⟩ : ∃ n, fuel = n + 1 := ⟨fuel - 1, by omega⟩
    cases pipe with
    | none => exact (parsed.1 rfl).elim
    | some op =>
      cases tokens with
      | nil => simp [Spells] at spells
      | cons spanned tokens =>
        obtain ⟨spelled, tail⟩ := spells_cons.mp spells
        have parts : Spells tokens (next.command.map .word ++
            ((next.pipeToNext.map Piece.pipe).toList ++ more.flatMap PipeSegment.pieces)) := by
          simpa [PipeSegment.pieces] using tail
        obtain ⟨wordTokens, others, rfl, wordSpells, otherSpells⟩ := parts.split
        have atom : (⟨wordTokens ++ (others ++ rest), input⟩ : Parser).parseAtomWords =
            .ok (next.command, ⟨others ++ rest, input⟩) :=
          parseAtomWords_of_spells input wordSpells (otherSpells.append restSpells)
            (stops_after_words parsed.2 stops)
        have found : pipeOp (⟨spanned :: (wordTokens ++ others) ++ rest, input⟩ : Parser).peek =
            some op := pipeOp_eq_some.mpr spelled
        have shorter : others.length + rest.length < fuel := by
          simp only [List.length_cons, List.length_append] at enough
          omega
        rw [parsePipelineLoop, found]
        simp only [advance, List.cons_append, List.tail_cons, List.append_assoc, atom, ok_bind]
        rw [ih parsed.2 otherSpells shorter]
        simp

end Complete

section Levels

variable {α Op : Type}

/-- The parser consumes exactly the pieces of what it returns. -/
def Reads (parse : Parser → Except ParseError (α × Parser)) (pieces : α → List Piece)
    (Good : α → Prop) : Prop :=
  ∀ p a p', parse p = .ok (a, p') →
    ∃ front, p.tokens = front ++ p'.tokens ∧ p'.input = p.input ∧ Spells front (pieces a) ∧ Good a

/-- The parser returns every good tree for its own pieces, if the next piece binds more loosely. -/
def Accepts (parse : Parser → Except ParseError (α × Parser)) (level : ℕ)
    (pieces : α → List Piece) (Good : α → Prop) : Prop :=
  ∀ a tokens rest after input, Good a → Spells tokens (pieces a) → Spells rest after →
    Stops level after → parse ⟨tokens ++ rest, input⟩ = .ok (a, ⟨rest, input⟩)

theorem parsePipeline_reads : Reads parsePipeline JobPlan.pieces JobPlan.IsPipeline := by
  intro p plan p' parsed
  rw [parsePipeline] at parsed
  obtain ⟨⟨words, p₁⟩, atom, parsed⟩ := bind_eq_ok.mp parsed
  obtain ⟨⟨segments, p₂⟩, loop, parsed⟩ := bind_eq_ok.mp parsed
  obtain ⟨front₁, split₁, spells₁, input₁⟩ := parseAtomWords_ok atom
  obtain ⟨front₂, pieces, tail, split₂, input₂, spells₂, whole, spelled, shape⟩ :=
    parsePipelineLoop_ok loop (Nat.lt_succ_self _) (by simp)
  dsimp only at parsed
  split_ifs at parsed with empty
  · simp [fail] at parsed
  · simp only [Except.ok.injEq, Prod.mk.injEq] at parsed
    obtain ⟨rfl, rfl⟩ := parsed
    refine ⟨front₁ ++ front₂, by rw [split₁, split₂, List.append_assoc], input₂.trans input₁, ?_,
      shape empty⟩
    have all := spells₁.append spells₂
    rwa [spelled, show tail = segments from whole.symm] at all

theorem parsePipeline_accepts : Accepts parsePipeline 1 JobPlan.pieces JobPlan.IsPipeline := by
  intro plan tokens rest after input good spells restSpells stops
  cases plan with
  | and left right => exact good.elim
  | or left right => exact good.elim
  | pipeline body =>
    obtain ⟨segments⟩ := body
    cases segments with
    | nil => exact good.elim
    | cons segment more =>
      have parts : Spells tokens (segment.command.map .word ++
          ((segment.pipeToNext.map Piece.pipe).toList ++ more.flatMap PipeSegment.pieces)) := by
        simpa [JobPlan.pieces, Pipeline.pieces, PipeSegment.pieces] using spells
      obtain ⟨wordTokens, others, rfl, wordSpells, otherSpells⟩ := parts.split
      have atom : (⟨wordTokens ++ (others ++ rest), input⟩ : Parser).parseAtomWords =
          .ok (segment.command, ⟨others ++ rest, input⟩) :=
        parseAtomWords_of_spells input wordSpells (otherSpells.append restSpells)
          (stops_after_words good stops)
      have enough : others.length + rest.length < (others ++ rest).length + 1 := by
        rw [List.length_append]
        omega
      rw [parsePipeline, List.append_assoc, atom, ok_bind]
      dsimp only
      rw [parsePipelineLoop_of_spells input good restSpells stops otherSpells enough, ok_bind]
      simp

/-- What a level of the grammar needs to know about its operators. -/
structure Level (opOf : Token → Option Op) (combine : α → Op → α → α) (opPiece : Op → Piece)
    (level : ℕ) (pieces : α → List Piece) : Prop where
  spelled : ∀ token op, opOf token = some op ↔ Piece.ofToken token = some (opPiece op)
  level_eq : ∀ op, (opPiece op).level = level
  pieces_combine : ∀ left op right, pieces (combine left op right) = pieces left ++ opPiece op :: pieces right

section LeftAssoc

variable {opOf : Token → Option Op} {operand : Parser → Except ParseError (α × Parser)}
variable {combine : α → Op → α → α} {opPiece : Op → Piece} {level : ℕ} {pieces : α → List Piece}
variable {Operand : α → Prop}

theorem peek_operator (levels : Level opOf combine opPiece level pieces) {op : Op}
    (found : opOf p.peek = some op) :
    ∃ spanned tokens, p.tokens = spanned :: tokens ∧
      Piece.ofToken spanned.token = some (opPiece op) := by
  obtain ⟨tokens, input⟩ := p
  cases tokens with
  | nil => simpa [peek, Piece.ofToken] using (levels.spelled .eof op).mp found
  | cons spanned tokens => exact ⟨spanned, tokens, rfl, (levels.spelled _ op).mp found⟩

theorem leftAssocLoop_reads (levels : Level opOf combine opPiece level pieces)
    (reads : Reads operand pieces Operand) {fuel : ℕ} {left result : α}
    (parsed : leftAssocLoop opOf operand combine fuel left p = .ok (result, p'))
    (nested : LeftNested Operand combine left) :
    ∃ front others, p.tokens = front ++ p'.tokens ∧ p'.input = p.input ∧ Spells front others ∧
      pieces result = pieces left ++ others ∧ LeftNested Operand combine result := by
  induction fuel generalizing left p with
  | zero =>
    simp only [leftAssocLoop, Except.ok.injEq, Prod.mk.injEq] at parsed
    obtain ⟨rfl, rfl⟩ := parsed
    exact ⟨[], [], rfl, rfl, rfl, by simp, nested⟩
  | succ fuel ih =>
    rw [leftAssocLoop] at parsed
    split at parsed
    · simp only [Except.ok.injEq, Prod.mk.injEq] at parsed
      obtain ⟨rfl, rfl⟩ := parsed
      exact ⟨[], [], rfl, rfl, rfl, by simp, nested⟩
    · next op found =>
      obtain ⟨⟨right, p₁⟩, next, loop⟩ := bind_eq_ok.mp parsed
      obtain ⟨spanned, tokens, cons, spelled⟩ := peek_operator levels found
      obtain ⟨front₁, split₁, input₁, spells₁, good⟩ := reads _ _ _ next
      have tokens₁ : tokens = front₁ ++ p₁.tokens := by simpa [advance, cons] using split₁
      obtain ⟨front₂, others, split₂, input₂, spells₂, whole, nestedNow⟩ :=
        ih loop (nested.combine op good)
      refine ⟨spanned :: (front₁ ++ front₂), opPiece op :: (pieces right ++ others), ?_,
        input₂.trans input₁, spells_cons.mpr ⟨spelled, spells₁.append spells₂⟩, ?_, nestedNow⟩
      · rw [cons, tokens₁, split₂]
        simp
      · rw [whole, levels.pieces_combine]
        simp

/-- A level reads what its operands read, nested to the left. -/
theorem Reads.leftAssoc (reads : Reads operand pieces Operand)
    (levels : Level opOf combine opPiece level pieces) :
    Reads (parseLeftAssoc opOf operand combine) pieces (LeftNested Operand combine) := by
  intro p result p' parsed
  rw [parseLeftAssoc] at parsed
  obtain ⟨⟨left, p₁⟩, first, loop⟩ := bind_eq_ok.mp parsed
  obtain ⟨front₁, split₁, input₁, spells₁, good⟩ := reads _ _ _ first
  obtain ⟨front₂, others, split₂, input₂, spells₂, whole, nested⟩ :=
    leftAssocLoop_reads levels reads loop (.operand good)
  refine ⟨front₁ ++ front₂, by rw [split₁, split₂, List.append_assoc], input₂.trans input₁, ?_, nested⟩
  rw [whole]
  exact spells₁.append spells₂

theorem opOf_none_of_stops (levels : Level opOf combine opPiece level pieces) (input : List Char)
    (spells : Spells rest after) (stops : Stops level after) :
    opOf (⟨rest, input⟩ : Parser).peek = none := by
  rw [Option.eq_none_iff_forall_ne_some]
  intro op found
  have spelled := (levels.spelled _ op).mp found
  cases after with
  | nil =>
    obtain rfl : rest = [] := List.eq_nil_of_length_eq_zero (by simpa using spells.length)
    simp [peek, Piece.ofToken] at spelled
  | cons piece after =>
    rw [peek_spelled spells input, Option.some.injEq] at spelled
    have late := stops piece (by simp)
    rw [spelled, levels.level_eq] at late
    exact Nat.lt_irrefl _ late

/-- Reading a nested tree comes down to the loop that continues after it. -/
theorem parseLeftAssoc_continues (levels : Level opOf combine opPiece level pieces)
    (accepts : Accepts operand (level - 1) pieces Operand) (positive : 0 < level)
    (input : List Char) {result : α} (nested : LeftNested Operand combine result)
    (spells : Spells tokens (pieces result)) (restSpells : Spells rest after)
    (stops : Stops (level - 1) after) :
    ∃ fuel, rest.length < fuel ∧
      parseLeftAssoc opOf operand combine ⟨tokens ++ rest, input⟩ =
        leftAssocLoop opOf operand combine fuel result ⟨rest, input⟩ := by
  induction nested generalizing tokens rest after with
  | operand good =>
    refine ⟨rest.length + 1, Nat.lt_succ_self _, ?_⟩
    rw [parseLeftAssoc, accepts _ _ _ _ input good spells restSpells stops, ok_bind]
  | @combine left right op nested good ih =>
    rw [levels.pieces_combine] at spells
    obtain ⟨front, back, rfl, leftSpells, backSpells⟩ := spells.split
    cases back with
    | nil => simp [Spells] at backSpells
    | cons spanned back =>
      obtain ⟨spelled, rightSpells⟩ := spells_cons.mp backSpells
      have opStops : Stops (level - 1) (opPiece op :: pieces right ++ after) := by
        intro piece first
        obtain rfl : opPiece op = piece := by simpa using first
        rw [levels.level_eq]
        omega
      obtain ⟨fuel, enough, continued⟩ := ih leftSpells (backSpells.append restSpells) opStops
      obtain ⟨fuel, rfl⟩ : ∃ n, fuel = n + 1 := ⟨fuel - 1, by omega⟩
      have found : opOf (⟨spanned :: back ++ rest, input⟩ : Parser).peek = some op :=
        (levels.spelled _ op).mpr spelled
      refine ⟨fuel, by simp only [List.length_append, List.length_cons] at enough; omega, ?_⟩
      rw [List.append_assoc, continued, leftAssocLoop, found]
      simp only [advance, List.cons_append, List.tail_cons,
        accepts _ _ _ _ input good rightSpells restSpells stops, ok_bind]

/-- A level accepts every tree nested to the left over what its operands accept. -/
theorem Accepts.leftAssoc (accepts : Accepts operand (level - 1) pieces Operand)
    (levels : Level opOf combine opPiece level pieces) (positive : 0 < level) :
    Accepts (parseLeftAssoc opOf operand combine) level pieces (LeftNested Operand combine) := by
  intro result tokens rest after input nested spells restSpells stops
  obtain ⟨fuel, enough, continued⟩ := parseLeftAssoc_continues levels accepts positive input nested
    spells restSpells (stops.mono (Nat.sub_le _ _))
  obtain ⟨fuel, rfl⟩ : ∃ n, fuel = n + 1 := ⟨fuel - 1, by omega⟩
  rw [continued, leftAssocLoop, opOf_none_of_stops levels input restSpells stops]

end LeftAssoc

theorem logicLevel : Level logicOp combineJobs
    (fun op => match op with | .and => Piece.and | .or => Piece.or) 2 JobPlan.pieces where
  spelled token op := by cases token <;> cases op <;> simp [logicOp, Piece.ofToken]
  level_eq op := by cases op <;> rfl
  pieces_combine left op right := by cases op <;> rfl

theorem parallelLevel : Level parallelOp ChainNode.parallel Piece.parallel 3 ChainNode.pieces where
  spelled token op := by cases token <;> simp [parallelOp, Piece.ofToken]
  level_eq op := rfl
  pieces_combine left op right := rfl

theorem serialLevel : Level serialOp ChainNode.serial Piece.serial 4 ChainNode.pieces where
  spelled token op := by cases token <;> simp [serialOp, Piece.ofToken]
  level_eq op := rfl
  pieces_combine left op right := rfl

theorem parseJobExpr_reads : Reads parseJobExpr ChainNode.pieces ChainNode.IsJob := by
  intro p node p' parsed
  rw [parseJobExpr] at parsed
  obtain ⟨⟨plan, p₁⟩, inner, parsed⟩ := bind_eq_ok.mp parsed
  simp only [Except.ok.injEq, Prod.mk.injEq] at parsed
  obtain ⟨rfl, rfl⟩ := parsed
  exact parsePipeline_reads.leftAssoc logicLevel _ _ _ inner

theorem parseJobExpr_accepts : Accepts parseJobExpr 2 ChainNode.pieces ChainNode.IsJob := by
  intro node tokens rest after input good spells restSpells stops
  cases node with
  | serial left op right => exact good.elim
  | parallel left op right => exact good.elim
  | leaf plan =>
    have inner := parsePipeline_accepts.leftAssoc logicLevel (by omega) plan tokens rest after input
      good spells restSpells stops
    rw [parseJobExpr, inner, ok_bind]

theorem parseParallel_reads : Reads parseParallel ChainNode.pieces ChainNode.IsParallel :=
  parseJobExpr_reads.leftAssoc parallelLevel

theorem parseParallel_accepts : Accepts parseParallel 3 ChainNode.pieces ChainNode.IsParallel :=
  parseJobExpr_accepts.leftAssoc parallelLevel (by omega)

/-- The chain parser consumes exactly the pieces of the chain it returns. -/
theorem parseChain_reads : Reads parseChain ChainNode.pieces ChainNode.Parsed :=
  parseParallel_reads.leftAssoc serialLevel

/-- The chain parser returns every chain of the grammar for its own pieces. -/
theorem parseChain_accepts : Accepts parseChain 4 ChainNode.pieces ChainNode.Parsed :=
  parseParallel_accepts.leftAssoc serialLevel (by omega)

end Levels

end Parser

end CueShell
