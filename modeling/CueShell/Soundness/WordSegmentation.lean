import CueShell.Proofs.ChainStatements
import CueShell.Proofs.PlainLines
import CueShell.Soundness.ChainSentences

/-! # The words of a plain line

A line without quotes, parentheses and operators is one command. Its words are the runs between
blanks, except that an ID reference at the head of a run is cut off and printed anew, and that a line
of white space other than blanks has no words at all.
-/

namespace CueShell

open Tokenizer

/-- The words of a single command; bare input without words is the empty command. -/
def Argument.commandWords : Argument → Option (List String)
  | .chain (.leaf (.pipeline ⟨[⟨words, none⟩]⟩)) => some words
  | .empty => some []
  | _ => none

section Line

variable {input : String} {read : List Spanned} {first final : Spanned} {words : List (List Char)}
variable {argument : Argument} {span : Span}

/-- Words alone are read as one command. -/
theorem parseSingleStatement_words {texts : List String} (text : List Char)
    (spells : Spells (first :: read) (texts.map .word)) (noCommand : ∀ name, first.token ≠ .command name) :
    ∃ span, (⟨first :: read, text⟩ : Parser).parseSingleStatement =
      .ok (.bareInput (.chain (.leaf (.simple texts))) span) := by
  have nonempty : texts ≠ [] := by
    rintro rfl
    simp [Spells] at spells
  have isPipeline : (JobPlan.simple texts).IsPipeline := fun _ => nonempty
  have parsed : (ChainNode.leaf (.simple texts)).Parsed := .operand isPipeline.isParallel
  have chain : (⟨first :: read, text⟩ : Parser).parseChain =
      .ok (.leaf (.simple texts), ⟨[], text⟩) := by
    refine Parser.readsChain_of_parsed parsed ?_
    simpa [ChainNode.pieces, JobPlan.simple, JobPlan.pieces, Pipeline.pieces, PipeSegment.pieces] using spells
  have real : first.token ≠ .eof := by
    obtain ⟨text, texts, rfl⟩ := List.exists_cons_of_ne_nil nonempty
    intro ended
    have spelled := (spells_cons.mp spells).1
    simp [ended, Piece.ofToken] at spelled
  rw [Parser.parseSingleStatement, Parser.parseStatement]
  have peeked : (⟨first :: read, text⟩ : Parser).peek = first.token := rfl
  dsimp only
  rw [peeked]
  split
  · next name is => exact absurd is (noCommand name)
  · next is => exact absurd is real
  · rw [chain]
    exact ⟨_, rfl⟩

theorem pushScriptChunk_nil (text : List Char) : pushScriptChunk text [] [] = [] := rfl

/-- A plain line is one command with the words of its segments, unless the line is white. -/
theorem parseTokens_line (isFinal : final.token = .eof) (segmented : Segmented 0 input.toList read words)
    (accepted : Parser.parseTokens (read ++ [final]) input.toList = .ok (.single (.bareInput argument span))) :
    ((∀ c ∈ input.toList, Text.isWhiteSpace c = true) ∧ argument.commandWords = some []) ∨
      (∃ c ∈ input.toList, Text.isWhiteSpace c = false) ∧
        argument.commandWords = some (words.map String.ofList) := by
  have one : splitTopLevelStatements (read ++ [final]) input.toList =
      pushScriptChunk input.toList [] read := by
    rw [splitTopLevelStatements, splitLoop_of_spells segmented.spells, List.nil_append, splitLoop, isFinal]
  have empty (none : pushScriptChunk input.toList [] read = []) : argument.commandWords = some [] := by
    rw [Parser.parseTokens, one, none] at accepted
    simp only [Except.ok.injEq, Ast.single.injEq, Statement.bareInput.injEq] at accepted
    rw [← accepted.1]
    rfl
  cases read with
  | nil =>
    rcases segmented.tiled.extent with ⟨-, blank⟩ | ⟨_, _, _, _, _, _, head, _⟩
    · exact .inl ⟨fun c member => isWhiteSpace_of_isBlank (blank c member), empty rfl⟩
    · simp at head
  | cons first read =>
    rcases pushScriptChunk_tiled segmented.tiled (List.cons_ne_nil _ _) with
      ⟨white, none⟩ | ⟨visible, chunk, only, same⟩
    · exact .inl ⟨white, empty none⟩
    · refine .inr ⟨visible, ?_⟩
      have spells : Spells (first :: read) ((words.map String.ofList).map .word) := by
        simpa [Function.comp_def] using segmented.spells
      obtain ⟨whole, parsed⟩ := parseSingleStatement_words input.toList spells
        (segmented.no_command first (by simp))
      rw [Parser.parseTokens, one, only] at accepted
      dsimp only at accepted
      rw [same, parsed, Parser.ok_bind] at accepted
      simp only [Except.ok.injEq, Ast.single.injEq, Statement.bareInput.injEq] at accepted
      rw [← accepted.1]
      rfl

theorem parseCommand_not_bare {p p' : Parser} {name : String} {start : ℕ} :
    p.parseCommand name start ≠ .ok (.bareInput argument span, p') := by
  intro parsed
  obtain ⟨spec, params, p₁, found, place, isCommand, -⟩ := Parser.parseCommand_ok parsed
  cases isCommand

/-- A line that starts with a colon, if only behind blanks, is not read as bare input. -/
theorem parseTokens_colon (isFinal : final.token = .eof)
    (colon : first.token = .colon ∨ ∃ name, first.token = .command name)
    (tiled : Tiled 0 input.toList (first :: read)) (visible : ':' ∈ input.toList)
    (spells : Spells read (words.map fun word => .word (String.ofList word))) :
    Parser.parseTokens (first :: read ++ [final]) input.toList ≠ .ok (.single (.bareInput argument span)) := by
  have one : splitTopLevelStatements (first :: read ++ [final]) input.toList =
      pushScriptChunk input.toList [] (first :: read) := by
    have opened : splitTopLevelStatements (first :: read ++ [final]) input.toList =
        splitLoop input.toList [] [first] 0 (read ++ [final]) := by
      rw [splitTopLevelStatements, List.cons_append, splitLoop]
      rcases colon with is | ⟨name, is⟩ <;> simp [is]
    rw [opened, splitLoop_of_spells spells, splitLoop, isFinal]
    rfl
  intro accepted
  rcases pushScriptChunk_tiled tiled (List.cons_ne_nil _ _) with ⟨white, -⟩ | ⟨-, chunk, only, same⟩
  · have dark : Text.isWhiteSpace ':' = true := white ':' visible
    simp [Text.isWhiteSpace] at dark
  · rw [Parser.parseTokens, one, only] at accepted
    dsimp only at accepted
    obtain ⟨statement, parsed, done⟩ := Parser.bind_eq_ok.mp accepted
    simp only [Except.ok.injEq, Ast.single.injEq] at done
    rw [same, Parser.parseSingleStatement] at parsed
    obtain ⟨⟨found, p⟩, inner, ended⟩ := Parser.bind_eq_ok.mp parsed
    dsimp only at ended
    split_ifs at ended
    · obtain rfl : found = statement := by simpa using ended
      subst done
      have peeked : (⟨first :: read, input.toList⟩ : Parser).peek = first.token := rfl
      rw [Parser.parseStatement] at inner
      dsimp only at inner
      rw [peeked] at inner
      rcases colon with is | ⟨name, is⟩
      · rw [is] at inner
        obtain ⟨⟨chain, q⟩, impossible, -⟩ := Parser.bind_eq_ok.mp inner
        obtain ⟨front, split, -, spelled, good⟩ := Parser.parseChain_reads _ _ _ impossible
        obtain ⟨piece, pieces, shape⟩ := List.exists_cons_of_ne_nil good.separated.1
        rw [shape] at spelled
        cases front with
        | nil => simp [Spells] at spelled
        | cons head front =>
          obtain rfl : first = head := (List.cons.inj split).1
          have found := (spells_cons.mp spelled).1
          simp [is, Piece.ofToken] at found
      · rw [is] at inner
        exact parseCommand_not_bare inner
    · simp [Parser.fail] at ended

/-- The first step at a colon: a colon or a command name, with a bare rest of the line. -/
theorem nextToken_colon {t : Tokenizer} {rest : List Char} (shape : t.rest = ':' :: rest)
    (start : t.lastSignificant = none) (outside : t.inModeParams = false) :
    ∃ token front back u, rest = front ++ back ∧ t.nextToken =
        .ok (⟨token, ⟨t.pos, t.pos + Text.byteLength (':' :: front)⟩⟩, u) ∧
      (token = .colon ∨ ∃ name, token = .command name) ∧ u.rest = back ∧
      u.pos = t.pos + Text.byteLength (':' :: front) ∧ u.inModeParams = false ∧ u.Bare := by
  have next : t.nextToken = .ok (t.tokenizeColon rest) := by
    simp [nextToken, shape, isBlank, start]
  rw [next, tokenizeColon]
  split_ifs
  · exact ⟨.colon, [], rest, _, rfl, rfl, .inl rfl, rfl, rfl, outside,
      bare_later (List.cons_ne_nil ':' []) rfl (Option.some_ne_none _)⟩
  · exact ⟨_, rest.takeWhile isIdentChar, rest.dropWhile isIdentChar, _,
      List.takeWhile_append_dropWhile.symm, rfl, .inr ⟨_, rfl⟩, rfl, rfl, outside,
      bare_later (List.cons_ne_nil ':' (rest.takeWhile isIdentChar)) rfl (Option.some_ne_none _)⟩

end Line

section Statement

variable {input : String} {tokens : List Spanned} {argument : Argument} {span : Span}

/-- Bare input does not start with a colon behind blanks. -/
theorem bare_of_accepted (line : PlainLine input.toList) (noColon : input.toList.head? ≠ some ':')
    (found : tokenizeForParser input = .ok tokens)
    (accepted : Parser.parseTokens tokens input.toList = .ok (.single (.bareInput argument span))) :
    (Tokenizer.new input).Bare := by
  refine .inr fun c first => ?_
  rintro rfl
  obtain ⟨rest, shape⟩ := List.head?_eq_some_iff.mp first
  have split : input.toList = input.toList.takeWhile isBlank ++ ':' :: rest := by
    rw [← shape]
    exact List.takeWhile_append_dropWhile.symm
  rw [tokenizeForParser] at found
  split at found
  · simp at found
  · next all tokenized =>
    obtain rfl := Except.ok.inj found
    obtain ⟨c, more, cons⟩ : ∃ c more, input.toList = c :: more := by
      refine List.exists_cons_of_ne_nil fun none => ?_
      rw [none] at split
      simp at split
    have blank : isBlank c = true := by
      by_contra dark
      rw [cons] at split noColon
      simp only [List.takeWhile_cons, dark, Bool.false_eq_true, if_false, List.nil_append,
        List.cons.injEq] at split
      exact noColon (congrArg some split.1)
    -- blanks, the colon, and the rest of the line
    have one := nextToken_blank (t := Tokenizer.new input) cons blank
    obtain ⟨token, front, back, u, rfl, two, isColon, behind, moved, outside, bare⟩ :=
      nextToken_colon (t := ((Tokenizer.new input).emit (.whitespace (String.ofList
        (input.toList.takeWhile isBlank))) (input.toList.takeWhile isBlank)
        (input.toList.dropWhile isBlank) none false).2) shape rfl rfl
    have visible : token.isWhitespace = false ∧ token ≠ .eof := by
      rcases isColon with rfl | ⟨name, rfl⟩ <;> simp [Token.isWhitespace]
    have someBlank : 0 < (input.toList.takeWhile isBlank).length := by simp [cons, blank]
    have size : input.length =
        (input.toList.takeWhile isBlank).length + (front.length + back.length + 1) := by
      rw [← String.length_toList]
      simpa using congrArg List.length split
    obtain ⟨fuel, length⟩ : ∃ fuel, input.length = fuel + 1 := ⟨input.length - 1, by omega⟩
    rw [Tokenizer.tokenize, length] at tokenized
    obtain ⟨later, behindBlanks, rfl⟩ := tokenizeLoop_step one (by simp) tokenized
    obtain ⟨others, loop, rfl⟩ := tokenizeLoop_step two visible.2 behindBlanks
    have plain : PlainLine u.rest := by
      rw [behind]
      refine PlainLine.suffix (input.toList.takeWhile isBlank ++ ':' :: front) ?_
      simpa [← split] using line
    have enough : u.rest.length < fuel := by
      rw [behind]
      omega
    obtain ⟨read, final, words, kept, isFinal, segmented⟩ :=
      tokenizeLoop_plain plain outside bare enough loop
    have tiled : Tiled 0 (input.toList.takeWhile isBlank ++ ':' :: (front ++ back))
        (⟨token, ⟨0 + Text.byteLength (input.toList.takeWhile isBlank), 0 +
          Text.byteLength (input.toList.takeWhile isBlank) + Text.byteLength (':' :: front)⟩⟩ :: read) := by
      refine .blanks (fun c member => List.mem_takeWhile_imp member) ?_
      rw [← List.cons_append]
      refine .token token ?_
      rw [← behind]
      have rest := segmented.tiled
      rwa [moved] at rest
    rw [← split] at tiled
    have refused := @parseTokens_colon input _ _ final words argument span isFinal isColon tiled
      (by rw [split]; simp) segmented.spells
    refine refused (Eq.trans (congrArg (Parser.parseTokens · input.toList) ?_) accepted)
    rw [List.filter_cons_of_neg (by simp [Token.isWhitespace]), List.filter_cons_of_pos (by simp [visible.1]),
      kept]
    rfl

/-- The words of a plain line are its runs exactly if no run starts with an ID reference that is not
all of the run, without leading zeros, and the line is not white without being blank. -/
theorem Parser.parse_words_iff (line : PlainLine input.toList) (noColon : input.toList.head? ≠ some ':')
    (accepted : Parser.parse input = .ok (.single (.bareInput argument span))) :
    argument.commandWords = some ((blankRuns input.toList).map String.ofList) ↔
      (∀ run ∈ blankRuns input.toList, idStable run = true) ∧
      (blankRuns input.toList = [] ∨ ∃ c ∈ input.toList, Text.isWhiteSpace c = false) := by
  rw [Parser.parse] at accepted
  obtain ⟨tokens, found, accepted⟩ := Parser.bind_eq_ok.mp accepted
  have bare := bare_of_accepted line noColon found accepted
  rw [tokenizeForParser] at found
  split at found
  · simp at found
  · next all tokenized =>
    obtain rfl := Except.ok.inj found
    obtain ⟨read, final, words, kept, isFinal, segmented⟩ :=
      tokenizeLoop_plain (t := Tokenizer.new input) line rfl bare
        (by simp [Tokenizer.new, String.length_toList]) tokenized
    rw [kept] at accepted
    replace segmented : Segmented 0 input.toList read words := segmented
    have injective : Function.Injective (List.map String.ofList) :=
      List.map_injective_iff.mpr fun first second same => by simpa using congrArg String.toList same
    rcases parseTokens_line isFinal segmented accepted with ⟨white, empty⟩ | ⟨visible, read⟩
    · have noVisible : ¬ ∃ c ∈ input.toList, Text.isWhiteSpace c = false := by
        rintro ⟨c, member, dark⟩
        simp [white c member] at dark
      rw [empty, Option.some.injEq]
      simp only [noVisible, or_false]
      constructor
      · intro none
        have noRuns : blankRuns input.toList = [] := List.map_eq_nil_iff.mp none.symm
        simp [noRuns]
      · rintro ⟨-, none⟩
        simp [none]
    · rw [read, Option.some.injEq, injective.eq_iff, segmented.words_iff]
      simp [visible]

theorem Parser.parse_words_notes :
    ∃ argument span, Parser.parse "cat  notes.txt J12" = .ok (.single (.bareInput argument span)) ∧
      argument.commandWords = some ((blankRuns "cat  notes.txt J12".toList).map String.ofList) := by
  have accepted : Parser.parse "cat  notes.txt J12" =
      .ok (.single (.bareInput (.chain (.leaf (.simple ["cat", "notes.txt", "J12"]))) ⟨0, 18⟩)) := by
    decide
  have runs : blankRuns "cat  notes.txt J12".toList =
      ["cat".toList, "notes.txt".toList, "J12".toList] := by decide
  refine ⟨_, _, accepted, (Parser.parse_words_iff (by decide) (by decide) accepted).mpr ⟨?_, ?_⟩⟩
  · rw [runs]
    decide
  · exact .inr ⟨'c', by simp, by decide⟩

/-- `cat J1.txt J007` runs `cat` with the arguments `J1`, `.txt` and `J7`. -/
theorem Parser.parse_cuts_word :
    PlainLine "cat J1.txt J007".toList ∧ "cat J1.txt J007".toList.head? ≠ some ':' ∧
      ∃ argument span, Parser.parse "cat J1.txt J007" = .ok (.single (.bareInput argument span)) ∧
        argument.commandWords = some ["cat", "J1", ".txt", "J7"] ∧
        argument.commandWords ≠ some ((blankRuns "cat J1.txt J007".toList).map String.ofList) := by
  have accepted : Parser.parse "cat J1.txt J007" =
      .ok (.single (.bareInput (.chain (.leaf (.simple ["cat", "J1", ".txt", "J7"]))) ⟨0, 15⟩)) := by
    decide
  have runs : blankRuns "cat J1.txt J007".toList =
      ["cat".toList, "J1.txt".toList, "J007".toList] := by decide
  refine ⟨by decide, by decide, _, _, accepted, rfl, ?_⟩
  rw [runs]
  decide

end Statement

end CueShell
