import CueShell.Proofs.Lexemes
import CueShell.Model.Parser.Resolver
import Mathlib.Data.Bool.AllAny

/-! # Reading a printed chain

The tokenizer reads the spaced pieces of a chain one by one when its words are plain, and the
statement parser hands the tokens of a single statement to the chain parser.
-/

namespace CueShell

open Tokenizer

section Pieces

variable {word rest text : List Char} {pos : ℕ}

/-- A plain word is gobbled up to the blank behind it. -/
theorem gobbleWord_of_plain (spaced : Spaced rest) (delimiters : ∀ c ∈ word, isDelimiter c = false)
    (free : operatorFree word = true) (before : Option Char) (pos : ℕ) :
    gobbleWord false before pos (word ++ rest) = .ok (word, rest) := by
  induction word generalizing before pos with
  | nil =>
    cases rest with
    | nil => rfl
    | cons c rest =>
      obtain rfl := spaced c (by simp)
      simp [gobbleWord, isDelimiter]
  | cons c word ih =>
    obtain ⟨first, others⟩ := List.forall_mem_cons.mp delimiters
    simp only [operatorFree, Bool.and_eq_true, Option.isNone_iff_eq_none] at free
    have none := startsWithOperator_append spaced free.1
    rw [List.cons_append] at none ⊢
    simp [gobbleWord, first, none, ih others free.2, Parser.ok_bind]

/-- A tokenizer inside a statement, behind a blank and outside mode parameters. -/
structure Tokenizer.Inside (t : Tokenizer) : Prop where
  started : 0 < t.pos
  significant : t.lastSignificant ≠ none
  outside : t.inModeParams = false

theorem tokenizeWord_plain {t : Tokenizer} (inside : t.Inside) (spaced : Spaced rest)
    (plain : plainWord word = true) (shape : t.rest = word ++ rest) :
    ∃ token, t.tokenizeWord = .ok (t.emitOther token word rest) ∧
      Piece.ofToken token = some (.word (String.ofList word)) := by
  obtain ⟨nonempty, delimiters, noQuote, free, stable⟩ := plainWord_iff.mp plain
  have same : idRefAt t.rest = idRefAt word := by rw [shape, idRefAt_append spaced.breaks nonempty]
  cases atHead : idRefAt word with
  | some found =>
    obtain ⟨kind, number, digits⟩ := found
    have whole : (kind.idText number).toList = word := by simpa [idStable, atHead] using stable
    obtain ⟨-, -, small, -, -⟩ := idRefAt_eq_some atHead
    have digitsEq : digits = Nat.toDigits 10 number := by
      rw [← whole, idRefAt_idText small] at atHead
      simpa using atHead.symm
    have length : digits.length + 1 = word.length := by
      rw [← whole, idText_toList, digitsEq]
      cases kind <;> simp [IdKind.display, Nat.add_comm]
    refine ⟨.idRef kind number, ?_, ?_⟩
    · rw [tokenizeWord, same, atHead]
      simp [length, shape]
    · rw [← whole, String.ofList_toList]
      rfl
  | none =>
    refine ⟨.word (String.ofList word), ?_, rfl⟩
    have gobbled := gobbleWord_of_plain spaced delimiters free t.before t.pos
    have regular : t.tokenizeRegularWord = .ok (t.emitOther (.word (String.ofList word)) word rest) := by
      simp [tokenizeRegularWord, inside.outside, shape, gobbled, Parser.ok_bind, nonempty]
    obtain ⟨c, more, rfl⟩ := List.exists_cons_of_ne_nil nonempty
    rw [tokenizeWord, same, atHead, shape, List.cons_append]
    dsimp only
    split
    · next body cons =>
      obtain ⟨rfl, -⟩ := List.cons.inj cons
      simpa [isDelimiter] using delimiters '"' (by simp)
    · next body cons =>
      obtain ⟨rfl, -⟩ := List.cons.inj cons
      simp at noQuote
    · simp [inside.outside, regular]
    · exact regular

/-- The first character of a plain word starts no other kind of token. -/
theorem nextToken_word {t : Tokenizer} (inside : t.Inside) (spaced : Spaced rest)
    (plain : plainWord word = true) (shape : t.rest = word ++ rest) :
    t.nextToken = t.tokenizeWord := by
  obtain ⟨nonempty, delimiters, -, free, -⟩ := plainWord_iff.mp plain
  obtain ⟨c, more, rfl⟩ := List.exists_cons_of_ne_nil nonempty
  have first := delimiters c (by simp)
  simp only [isDelimiter, Bool.or_eq_false_iff, beq_eq_false_iff_ne] at first
  obtain ⟨⟨⟨⟨⟨⟨blank, tab⟩, newline⟩, opens⟩, closes⟩, bar⟩, -⟩ := first
  simp only [operatorFree, Bool.and_eq_true, Option.isNone_iff_eq_none] at free
  have none := startsWithOperator_eq_none.mp (startsWithOperator_append spaced free.1)
  have second : ∀ d, [c, d] ∈ operatorTexts → (more ++ rest).head? ≠ some d := by
    intro d member next
    obtain ⟨after, split⟩ := List.head?_eq_some_iff.mp next
    exact none _ member ⟨after, by simp [split]⟩
  have noReturn : ∀ after, more ++ rest ≠ '\n' :: after := by
    intro after split
    cases more with
    | cons d more =>
      obtain ⟨rfl, -⟩ := List.cons.inj split
      simpa [isDelimiter] using delimiters '\n' (by simp)
    | nil => simpa using spaced '\n' (by simp [show rest = _ from split])
  rw [nextToken, shape, List.cons_append]
  split
  · next empty => simp at empty
  · next after cons => exact (newline (List.cons.inj cons).1).elim
  · next after cons => exact (noReturn after (List.cons.inj cons).2).elim
  · next d after _ _ cons =>
    obtain ⟨rfl, rfl⟩ := List.cons.inj cons
    have started := inside.started
    rw [if_neg (by simp [isBlank, blank, tab]),
      if_neg (by simp [Nat.ne_of_gt started, inside.significant]), if_neg opens, if_neg closes,
      if_neg, if_neg, if_neg, if_neg bar]
    · rintro ⟨rfl, next⟩
      exact second '&' (by decide) next
    · rintro ⟨rfl, next⟩
      exact second '>' (by decide) next
    · rintro ⟨rfl, next⟩
      exact second '>' (by decide) next

theorem nextToken_bar {t : Tokenizer} (shape : t.rest = '|' :: text) :
    t.nextToken = t.tokenizePipeOrParallel := by
  simp [nextToken, shape, isBlank]

/-- An operator between blanks is read. -/
theorem spacedOperator_read {t : Tokenizer} (token : Token) (behind : t.before = some ' ')
    (spaced : Spaced rest) (shape : t.rest = token.operatorText.toList ++ rest) :
    t.spacedOperator token = .ok (t.emitOther token token.operatorText.toList rest) := by
  have length : token.operatorText.length = token.operatorText.toList.length :=
    String.length_toList.symm
  have after : rest.head?.all isOperatorBoundary = true := by
    cases rest with
    | nil => rfl
    | cons c rest => simp [spaced c (by simp), isOperatorBoundary]
  have fine : operatorHasRequiredWhitespace t.before t.rest token.operatorText.length = true := by
    rw [operatorHasRequiredWhitespace, behind, shape, length, List.drop_left, after]
    rfl
  simp only [spacedOperator, fine, if_true]
  rw [length, shape, List.take_left, List.drop_left]

/-- A plain piece behind a blank is read as one token. -/
theorem nextToken_piece {t : Tokenizer} {piece : Piece} (inside : t.Inside)
    (behind : t.before = some ' ') (spaced : Spaced rest) (plain : piece.Plain)
    (shape : t.rest = piece.text.toList ++ rest) :
    ∃ token, t.nextToken = .ok (t.emitOther token piece.text.toList rest) ∧
      Piece.ofToken token = some piece := by
  cases piece with
  | word text =>
    obtain ⟨token, read, spelled⟩ := tokenizeWord_plain inside spaced plain shape
    refine ⟨token, (nextToken_word inside spaced plain shape).trans read, ?_⟩
    simpa using spelled
  | pipe op =>
    cases op with
    | stdout =>
      refine ⟨.pipeStdout, ?_, rfl⟩
      rw [nextToken_bar shape, tokenizePipeOrParallel, shape]
      rfl
    | stdoutStderr =>
      refine ⟨.pipeAll, ?_, rfl⟩
      rw [nextToken_bar shape, tokenizePipeOrParallel, shape]
      rfl
    | stderrOnly =>
      refine ⟨.pipeStderr, ?_, rfl⟩
      rw [nextToken_bar shape, tokenizePipeOrParallel, shape]
      rfl
  | and =>
    refine ⟨.jobAnd, ?_, rfl⟩
    have cons : t.rest = '&' :: '&' :: rest := shape
    simp [nextToken, cons, isBlank, Piece.text]
  | or =>
    refine ⟨.jobOr, ?_, rfl⟩
    have cons : t.rest = '|' :: '|' :: rest := shape
    rw [nextToken_bar cons, tokenizePipeOrParallel, cons]
    cases rest with
    | nil => rfl
    | cons c rest =>
      obtain rfl := spaced c (by simp)
      rfl
  | parallel op =>
    cases op with
    | all =>
      refine ⟨.parallelAll, ?_, rfl⟩
      have read := spacedOperator_read .parallelAll behind spaced shape
      rw [nextToken_bar shape, tokenizePipeOrParallel, shape]
      exact read
    | race =>
      refine ⟨.parallelRace, ?_, rfl⟩
      have read := spacedOperator_read .parallelRace behind spaced shape
      rw [nextToken_bar shape, tokenizePipeOrParallel, shape]
      exact read
  | serial op =>
    cases op with
    | andThen =>
      refine ⟨.serialThen, ?_, rfl⟩
      have cons : t.rest = '-' :: '>' :: rest := shape
      have read := spacedOperator_read .serialThen behind spaced shape
      have next : t.nextToken = t.spacedOperator .serialThen := by simp [nextToken, cons, isBlank]
      exact next.trans read
    | always =>
      refine ⟨.serialAlways, ?_, rfl⟩
      have cons : t.rest = '~' :: '>' :: rest := shape
      have read := spacedOperator_read .serialAlways behind spaced shape
      have next : t.nextToken = t.spacedOperator .serialAlways := by simp [nextToken, cons, isBlank]
      exact next.trans read

theorem spaced_spread (pieces : List SpacedPiece) : Spaced (spread pieces) := by
  intro c first
  cases pieces with
  | nil => simp [spread] at first
  | cons head pieces =>
    obtain ⟨extra, piece⟩ := head
    simpa [spread_cons, List.replicate_succ, eq_comm] using first

theorem Piece.Plain.visible {piece : Piece} (plain : piece.Plain) :
    ∃ c more, piece.text.toList = c :: more ∧ isBlank c = false := by
  cases piece with
  | word text =>
    obtain ⟨nonempty, delimiters, -⟩ := plainWord_iff.mp plain
    obtain ⟨c, more, cons⟩ := List.exists_cons_of_ne_nil nonempty
    refine ⟨c, more, cons, ?_⟩
    have first := delimiters c (by simp [cons])
    simp only [isDelimiter, Bool.or_eq_false_iff] at first
    simp [isBlank, first]
  | pipe op => cases op <;> exact ⟨_, _, rfl, rfl⟩
  | and => exact ⟨_, _, rfl, rfl⟩
  | or => exact ⟨_, _, rfl, rfl⟩
  | parallel op => cases op <;> exact ⟨_, _, rfl, rfl⟩
  | serial op => cases op <;> exact ⟨_, _, rfl, rfl⟩

/-- The blanks in front of a piece are one token. -/
theorem nextToken_blanks {t : Tokenizer} {extra : ℕ} (full : ∀ c ∈ rest.head?, isBlank c = false)
    (shape : t.rest = List.replicate (extra + 1) ' ' ++ rest) :
    t.nextToken = .ok (t.emit (.whitespace (String.ofList (List.replicate (extra + 1) ' ')))
      (List.replicate (extra + 1) ' ') rest t.lastSignificant t.inModeParams) := by
  have blank : ∀ c ∈ List.replicate (extra + 1) ' ', isBlank c = true := by simp [isBlank]
  have none : rest.takeWhile isBlank = [] ∧ rest.dropWhile isBlank = rest := by
    cases rest with
    | nil => simp
    | cons c rest => simp [full c (by simp)]
  have taken : t.rest.takeWhile isBlank = List.replicate (extra + 1) ' ' := by
    rw [shape, List.takeWhile_append_of_pos blank, none.1, List.append_nil]
  have dropped : t.rest.dropWhile isBlank = rest := by
    rw [shape, List.dropWhile_append_of_pos blank, none.2]
  have cons : t.rest = ' ' :: (List.replicate extra ' ' ++ rest) := by
    rw [shape, List.replicate_succ, List.cons_append]
  rw [nextToken, taken, dropped, cons]
  simp [isBlank]

theorem Tokenizer.Inside.emit {t : Tokenizer} (inside : t.Inside) (token : Token)
    (text rest : List Char) {last : Option TokenClass} (significant : last ≠ none) :
    (t.emit token text rest last t.inModeParams).2.Inside where
  started := Nat.add_pos_left inside.started _
  significant := significant
  outside := inside.outside

/-- A text that is read as a piece where it stands between blanks. -/
structure ReadsAs (text : List Char) (piece : Piece) : Prop where
  visible : ∃ c more, text = c :: more ∧ isBlank c = false
  read : ∀ {t : Tokenizer} {rest : List Char}, t.Inside → t.before = some ' ' → Spaced rest →
    t.rest = text ++ rest →
      ∃ token, t.nextToken = .ok (t.emitOther token text rest) ∧ Piece.ofToken token = some piece

theorem Piece.Plain.reads {piece : Piece} (plain : piece.Plain) : ReadsAs piece.text.toList piece where
  visible := plain.visible
  read inside behind spaced shape := nextToken_piece inside behind spaced plain shape

/-- A piece with blanks in front of it is read by two steps. -/
theorem ReadsAs.spaced {t : Tokenizer} {piece : Piece} {extra : ℕ} (reads : ReadsAs text piece)
    (inside : t.Inside) (spaced : Spaced rest)
    (shape : t.rest = List.replicate (extra + 1) ' ' ++ (text ++ rest)) :
    ∃ blank t₁ spanned t₂, t.nextToken = .ok (blank, t₁) ∧ blank.token.isWhitespace = true ∧
      t₁.nextToken = .ok (spanned, t₂) ∧ Piece.ofToken spanned.token = some piece ∧
      0 < spanned.span.stop ∧ t₂.Inside ∧ t₂.rest = rest := by
  obtain ⟨c, more, visible, full⟩ := reads.visible
  have blanks := nextToken_blanks (by simpa [visible] using full) shape
  have insideNow : (t.emit (.whitespace (String.ofList (List.replicate (extra + 1) ' ')))
      (List.replicate (extra + 1) ' ') (text ++ rest) t.lastSignificant
      t.inModeParams).2.Inside := inside.emit _ _ _ inside.significant
  have behind : (List.replicate (extra + 1) ' ').getLast?.or t.before = some ' ' := by
    rw [List.getLast?_replicate]
    rfl
  obtain ⟨token, read, spelled⟩ := reads.read insideNow behind spaced rfl
  have positive := insideNow.started
  exact ⟨_, _, _, _, blanks, rfl, read, spelled, Nat.add_pos_left positive _,
    insideNow.emit token text rest (by simp), rfl⟩

end Pieces

section Spread

theorem isWhitespace_of_ofToken {token : Token} {piece : Piece}
    (spelled : Piece.ofToken token = some piece) : token.isWhitespace = false := by
  cases token with
  | whitespace text => exact absurd spelled (by simp [Piece.ofToken])
  | _ => rfl

/-- A piece as it is written: behind so many blanks beyond the first, and with some text. -/
structure WrittenPiece where
  extra : ℕ
  text : List Char
  piece : Piece

def WrittenPiece.Reads (written : WrittenPiece) : Prop := ReadsAs written.text written.piece

/-- The text of written pieces. -/
def written (pieces : List WrittenPiece) : List Char :=
  pieces.flatMap fun piece => List.replicate (piece.extra + 1) ' ' ++ piece.text

theorem written_cons (head : WrittenPiece) (pieces : List WrittenPiece) :
    written (head :: pieces) =
      List.replicate (head.extra + 1) ' ' ++ (head.text ++ written pieces) := by
  simp [written]

theorem spaced_written (pieces : List WrittenPiece) : Spaced (written pieces) := by
  intro c first
  cases pieces with
  | nil => simp [written] at first
  | cons head pieces => simpa [written_cons, List.replicate_succ, eq_comm] using first

/-- The tokens of written pieces, without the blanks, spell the pieces. -/
theorem tokenizeLoop_written {pieces : List WrittenPiece} (reads : ∀ piece ∈ pieces, piece.Reads)
    {t : Tokenizer} (inside : t.Inside) (shape : t.rest = written pieces) {fuel : ℕ}
    (enough : t.rest.length < fuel) :
    ∃ tokens read final, tokenizeLoop fuel t = .ok (tokens ++ [final]) ∧ final.token = .eof ∧
      tokens.filter (fun spanned => !spanned.token.isWhitespace) = read ∧
      Spells read (pieces.map WrittenPiece.piece) ∧ ∀ spanned ∈ read, 0 < spanned.span.stop := by
  induction pieces generalizing t fuel with
  | nil =>
    obtain ⟨fuel, rfl⟩ : ∃ n, fuel = n + 1 := ⟨fuel - 1, by omega⟩
    have empty : t.rest = [] := shape
    refine ⟨[], [], ⟨.eof, ⟨t.pos, t.pos⟩⟩, ?_, rfl, rfl, rfl, by simp⟩
    simp [tokenizeLoop, nextToken, empty, Parser.ok_bind]
  | cons head pieces ih =>
    obtain ⟨first, others⟩ := List.forall_mem_cons.mp reads
    rw [written_cons] at shape
    have length : t.rest.length =
        (head.extra + 1) + (head.text.length + (written pieces).length) := by simp [shape]
    obtain ⟨c, more, visible, -⟩ := first.visible
    have positive : 0 < head.text.length := by simp [visible]
    obtain ⟨fuel, rfl⟩ : ∃ n, fuel = n + 2 := ⟨fuel - 2, by omega⟩
    obtain ⟨blank, t₁, spanned, t₂, skip, isBlank, next, spelled, stop, inside₂, rest₂⟩ :=
      ReadsAs.spaced first inside (spaced_written pieces) shape
    obtain ⟨tokens, read, final, loop, isFinal, filtered, spells, stops⟩ :=
      ih others inside₂ rest₂ (show t₂.rest.length < fuel by rw [rest₂]; omega)
    have notEof : blank.token ≠ .eof := by
      intro eof
      simp [eof, Token.isWhitespace] at isBlank
    have notEof' : spanned.token ≠ .eof := by
      intro eof
      simp [eof, Piece.ofToken] at spelled
    have visibleToken := isWhitespace_of_ofToken spelled
    refine ⟨blank :: spanned :: tokens, spanned :: read, final, ?_, isFinal, ?_,
      spells_cons.mpr ⟨spelled, spells⟩, List.forall_mem_cons.mpr ⟨stop, stops⟩⟩
    · simp [tokenizeLoop, skip, next, loop, Parser.ok_bind, notEof, notEof']
    · simp [isBlank, visibleToken, filtered]

/-- A piece with its own text. -/
def SpacedPiece.asWritten (spaced : SpacedPiece) : WrittenPiece :=
  ⟨spaced.1, spaced.2.text.toList, spaced.2⟩

theorem written_spaced (pieces : List SpacedPiece) :
    written (pieces.map SpacedPiece.asWritten) = spread pieces := by
  simp [written, spread, List.flatMap_map, SpacedPiece.asWritten]

end Spread

section Statement

variable {tokens rest : List Spanned} {input : List Char} {node : ChainNode}

/-- Tokens that spell pieces stay in the current statement. -/
theorem splitLoop_of_spells {pieces : List Piece} (spells : Spells tokens pieces) (chunks : List ScriptChunk)
    (current : List Spanned) (depth : ℕ) :
    splitLoop input chunks current depth (tokens ++ rest) =
      splitLoop input chunks (current ++ tokens) depth rest := by
  induction tokens generalizing pieces current with
  | nil => simp
  | cons spanned tokens ih =>
    cases pieces with
    | nil => simp [Spells] at spells
    | cons piece pieces =>
      obtain ⟨spelled, tail⟩ := spells_cons.mp spells
      have step : splitLoop input chunks current depth (spanned :: (tokens ++ rest)) =
          splitLoop input chunks (current ++ [spanned]) depth (tokens ++ rest) := by
        rw [splitLoop]
        split <;> simp_all [Piece.ofToken]
      rw [List.cons_append, step, ih tail, List.append_assoc, List.singleton_append]

/-- A statement that starts with a character other than white space is not blank. -/
theorem pushScriptChunk_visible {first last : Spanned} (c : Char) (text : List Char)
    (head : tokens.head? = some first) (final : tokens.getLast? = some last)
    (start : first.span.start = 0) (stop : 0 < last.span.stop) (full : Text.isWhiteSpace c = false) :
    ∃ chunk, pushScriptChunk (c :: text) [] tokens = [chunk] ∧ chunk.tokens = tokens := by
  have visible : Text.trim (Text.slice (c :: text) first.span.start last.span.stop) ≠ [] := by
    obtain ⟨more, slice⟩ : ∃ more, Text.slice (c :: text) first.span.start last.span.stop = c :: more := by
      rw [start, Text.slice, Text.dropBytes, if_pos rfl, Text.takeBytes, if_neg (by omega)]
      exact ⟨_, rfl⟩
    have kept : Text.trimStart (c :: more) = c :: more := by simp [Text.trimStart, full]
    rw [slice, Text.trim, kept, Text.trimEnd]
    intro empty
    have gone := List.dropWhile_eq_nil_iff.mp (List.reverse_eq_nil_iff.mp empty)
    have blank := gone c (by simp)
    simp [full] at blank
  rw [pushScriptChunk, head, final]
  dsimp only
  rw [if_neg visible]
  exact ⟨_, rfl, rfl⟩

/-- The commands that take a chain. -/
def TakesChain (name : String) : Prop :=
  (commandSpec name).map CommandSpec.argKind = some .chain ∨
    (commandSpec name).map CommandSpec.argKind = some .cron

theorem parseArgumentForCommand_chain {p p' : Parser} {name : String} {spec : CommandSpec}
    (kind : spec.argKind = .chain ∨ spec.argKind = .cron) (more : p.atEnd = false)
    (chain : p.parseChain = .ok (node, p')) :
    p.parseArgumentForCommand name spec = .ok (.chain node, p') := by
  rcases kind with kind | kind <;>
    simp [Parser.parseArgumentForCommand, kind, more, chain, Parser.ok_bind]

/-- The tokens of a command name in front of a chain are parsed as that command with that chain. -/
theorem parseSingleStatement_chain_of_spells {name : String} (takes : TakesChain name) (command : Spanned)
    (input : List Char) (named : command.token = .command name) (parsed : node.Parsed)
    (spells : Spells tokens node.pieces) (nonempty : tokens ≠ []) :
    ∃ span, (⟨command :: tokens, input⟩ : Parser).parseSingleStatement =
      .ok (.command name [] (.chain node) span) := by
  have chain := Parser.parseChain_accepts node tokens [] [] input parsed spells spells_nil
    (by simp [Stops])
  rw [List.append_nil] at chain
  obtain ⟨first, more, rfl⟩ := List.exists_cons_of_ne_nil nonempty
  have spelled : ∃ piece, Piece.ofToken first.token = some piece := by
    cases pieces : node.pieces with
    | nil => simp [pieces, Spells] at spells
    | cons piece others => exact ⟨piece, (spells_cons.mp (pieces ▸ spells)).1⟩
  obtain ⟨piece, spelled⟩ := spelled
  have noParams : first.token ≠ .modeParenOpen := by
    intro eq
    simp [eq, Piece.ofToken] at spelled
  have eof : first.token ≠ .eof := by
    intro eq
    simp [eq, Piece.ofToken] at spelled
  obtain ⟨spec, found, kind⟩ : ∃ spec, commandSpec name = some spec ∧
      (spec.argKind = .chain ∨ spec.argKind = .cron) := by
    rcases takes with takes | takes
    · obtain ⟨spec, found, kind⟩ := Option.map_eq_some_iff.mp takes
      exact ⟨spec, found, .inl kind⟩
    · obtain ⟨spec, found, kind⟩ := Option.map_eq_some_iff.mp takes
      exact ⟨spec, found, .inr kind⟩
  have argument : (⟨first :: more, input⟩ : Parser).parseArgumentForCommand name spec =
      .ok (.chain node, ⟨[], input⟩) :=
    parseArgumentForCommand_chain kind (by simp [Parser.atEnd, Parser.peek, eof]) chain
  have known : (⟨first :: more, input⟩ : Parser).commandSpecOrError name = .ok spec := by
    rw [Parser.commandSpecOrError, found]
  have statement : (⟨command :: first :: more, input⟩ : Parser).parseStatement =
      .ok (.command name [] (.chain node) ⟨command.span.start, Text.byteLength input⟩, ⟨[], input⟩) := by
    simp [Parser.parseStatement, Parser.parseCommand, Parser.peek, Parser.peekSpan, Parser.inputLen,
      named, Parser.advance, known, Parser.ok_bind, noParams, argument]
  refine ⟨⟨command.span.start, Text.byteLength input⟩, ?_⟩
  rw [Parser.parseSingleStatement, statement, Parser.ok_bind]
  rfl

/-- A name that the tokenizer takes for a command name. -/
structure CommandName (name : String) : Prop where
  nonempty : name.toList ≠ []
  ident : ∀ c ∈ name.toList, isIdentChar c = true

/-- The command name in front of a chain. -/
def commandToken (name : String) : Spanned :=
  ⟨.command name, ⟨0, 1 + Text.byteLength name.toList⟩⟩

/-- The tokenizer behind the command name. -/
def behindCommand (name : String) (text : List Char) : Tokenizer :=
  ⟨text, name.toList.getLast?, 1 + Text.byteLength name.toList, some .command, false⟩

theorem nextToken_command {name : String} (isName : CommandName name) {text : List Char}
    (spaced : Spaced text) :
    (⟨':' :: (name.toList ++ text), none, 0, none, false⟩ : Tokenizer).nextToken =
      .ok (commandToken name, behindCommand name text) := by
  have taken : (name.toList ++ text).takeWhile isIdentChar = name.toList := by
    rw [spaced.breaks.takeWhile fun _ ident => ident]
    exact List.takeWhile_eq_self_iff.mpr isName.ident
  have dropped : (name.toList ++ text).dropWhile isIdentChar = text := by
    rw [spaced.breaks.dropWhile fun _ ident => ident, List.dropWhile_eq_nil_iff.mpr isName.ident,
      List.nil_append]
  have colon : (⟨':' :: (name.toList ++ text), none, 0, none, false⟩ : Tokenizer).nextToken =
      .ok ((⟨':' :: (name.toList ++ text), none, 0, none, false⟩ : Tokenizer).tokenizeColon
        (name.toList ++ text)) := rfl
  obtain ⟨c, more, cons⟩ := List.exists_cons_of_ne_nil isName.nonempty
  rw [colon, tokenizeColon]
  dsimp only
  rw [taken, dropped, if_neg isName.nonempty, String.ofList_toList]
  simp [Tokenizer.emit, commandToken, behindCommand, cons, List.getLast?_cons_cons, Char.utf8Size]

/-- The text of a command: the command name, then the pieces of its chain. -/
def commandText (name : String) (pieces : List WrittenPiece) : String :=
  String.ofList (':' :: (name.toList ++ written pieces))

theorem tokenize_commandText {name : String} (isName : CommandName name) (pieces : List WrittenPiece) :
    Tokenizer.tokenize (commandText name pieces) =
      (tokenizeLoop (commandText name pieces).length
        (behindCommand name (written pieces)) >>= fun tokens => .ok (commandToken name :: tokens)) := by
  have start : Tokenizer.new (commandText name pieces) =
      ⟨':' :: (name.toList ++ written pieces), none, 0, none, false⟩ := by
    rw [Tokenizer.new, commandText, String.toList_ofList]
  rw [tokenize, tokenizeLoop, start, nextToken_command isName (spaced_written _)]
  rfl

/-- The tokens of a command, without the blanks. -/
theorem tokenizeForParser_commandText {name : String} (isName : CommandName name)
    {pieces : List WrittenPiece} (reads : ∀ piece ∈ pieces, piece.Reads) :
    ∃ read final, tokenizeForParser (commandText name pieces) =
        .ok ((commandToken name :: read) ++ [final]) ∧ final.token = .eof ∧
      Spells read (pieces.map WrittenPiece.piece) ∧ ∀ spanned ∈ read, 0 < spanned.span.stop := by
  have length : (written pieces).length < (commandText name pieces).length := by
    rw [← String.length_toList, commandText, String.toList_ofList, List.length_cons, List.length_append]
    omega
  have inside : (behindCommand name (written pieces)).Inside :=
    ⟨Nat.add_pos_left Nat.one_pos _, by simp [behindCommand], rfl⟩
  obtain ⟨tokens, read, final, loop, isFinal, filtered, spells, stops⟩ :=
    tokenizeLoop_written reads inside rfl length
  refine ⟨read, final, ?_, isFinal, spells, stops⟩
  rw [tokenizeForParser, tokenize_commandText isName pieces, loop, Parser.ok_bind]
  have visible : (commandToken name).token.isWhitespace = false := rfl
  have last : final.token.isWhitespace = false := by rw [isFinal]; rfl
  simp [List.filter_append, filtered, visible, last]

theorem pieces_ne_nil (parsed : node.Parsed) : node.pieces ≠ [] := by
  intro empty
  have shown := ChainNode.spread_spaced parsed
  rw [← ChainNode.spaced_snd, List.map_eq_nil_iff] at empty
  simp [empty, spread] at shown

/-- A command is parsed as that command with the chain whose pieces are written behind it. -/
theorem parse_commandText {name : String} (isName : CommandName name) (takes : TakesChain name)
    (parsed : node.Parsed) {pieces : List WrittenPiece} (reads : ∀ piece ∈ pieces, piece.Reads)
    (same : pieces.map WrittenPiece.piece = node.pieces) :
    ∃ span, Parser.parse (commandText name pieces) =
      .ok (.single (.command name [] (.chain node) span)) := by
  obtain ⟨read, final, tokenized, isFinal, spells, stops⟩ := tokenizeForParser_commandText isName reads
  rw [same] at spells
  have nonempty : read ≠ [] := by
    rintro rfl
    exact pieces_ne_nil parsed (List.eq_nil_of_length_eq_zero spells.length.symm)
  obtain ⟨last, isLast⟩ : ∃ last, (commandToken name :: read).getLast? = some last :=
    ⟨_, List.getLast?_eq_some_getLast (List.cons_ne_nil _ _)⟩
  have stop : 0 < last.span.stop := by
    rcases List.mem_cons.mp (List.mem_of_getLast? isLast) with rfl | member
    · exact Nat.add_pos_left Nat.one_pos _
    · exact stops last member
  obtain ⟨chunk, pushed, chunkTokens⟩ :=
    pushScriptChunk_visible ':' (name.toList ++ written pieces) (List.head?_cons ..) isLast rfl
      stop (by decide)
  have split : splitTopLevelStatements ((commandToken name :: read) ++ [final])
      (commandText name pieces).toList = [chunk] := by
    have all : Spells (commandToken name :: read) (.word (":" ++ name) :: node.pieces) :=
      spells_cons.mpr ⟨rfl, spells⟩
    rw [splitTopLevelStatements, splitLoop_of_spells all, List.nil_append, splitLoop, isFinal,
      commandText, String.toList_ofList]
    exact pushed
  obtain ⟨span, statement⟩ := parseSingleStatement_chain_of_spells takes (commandToken name)
    (commandText name pieces).toList rfl parsed spells nonempty
  refine ⟨span, ?_⟩
  rw [Parser.parse, tokenized, Parser.ok_bind, Parser.parseTokens, split]
  dsimp only
  rw [chunkTokens, statement]
  rfl

/-- A printed chain behind a command name. -/
theorem commandText_display (name : String) (parsed : node.Parsed) :
    commandText name (node.spaced.map SpacedPiece.asWritten) = ":" ++ name ++ " " ++ node.display := by
  rw [commandText, written_spaced, ← ChainNode.spread_spaced parsed, ← String.toList_inj]
  simp

/-- A command with a printed chain of plain words is parsed as that command with that chain. -/
theorem parse_of_plain {name : String} (isName : CommandName name) (takes : TakesChain name)
    (parsed : node.Parsed) (plain : ∀ piece ∈ node.pieces, piece.Plain) :
    ∃ span, Parser.parse (":" ++ name ++ " " ++ node.display) =
      .ok (.single (.command name [] (.chain node) span)) := by
  rw [← commandText_display name parsed]
  refine parse_commandText isName takes parsed (fun piece member => ?_) ?_
  · obtain ⟨spaced, inside, rfl⟩ := List.mem_map.mp member
    refine Piece.Plain.reads (plain _ ?_)
    rw [← ChainNode.spaced_snd]
    exact List.mem_map_of_mem inside
  · rw [List.map_map, ← ChainNode.spaced_snd]
    rfl

theorem commandName_run : CommandName "run" :=
  ⟨by decide, List.all_iff_forall_prop.mp rfl⟩

/-- The command name in front of a chain. -/
def runToken : Spanned := ⟨.command "run", ⟨0, 4⟩⟩

theorem tokenize_run (parsed : node.Parsed) :
    Tokenizer.tokenize (":run " ++ node.display) =
      (tokenizeLoop (":run " ++ node.display).length
        ⟨spread node.spaced, some 'n', 4, some .command, false⟩ >>= fun tokens =>
          .ok (runToken :: tokens)) := by
  have behind : behindCommand "run" (spread node.spaced) =
      ⟨spread node.spaced, some 'n', 4, some .command, false⟩ := rfl
  have general := tokenize_commandText commandName_run (node.spaced.map SpacedPiece.asWritten)
  rw [commandText_display "run" parsed, written_spaced, show ":" ++ "run" ++ " " = ":run " from rfl,
    behind] at general
  exact general

/-- A printed chain with plain words is read back. -/
theorem parseChainText_of_plain (parsed : node.Parsed) (plain : ∀ piece ∈ node.pieces, piece.Plain) :
    parseChainText node.display = some node := by
  obtain ⟨span, parse⟩ := parse_of_plain commandName_run (.inl (by decide)) parsed plain
  rw [show ":" ++ "run" ++ " " = ":run " from rfl] at parse
  rw [parseChainText, CueShell.parseCommand, parse]
  rfl

end Statement

end CueShell
