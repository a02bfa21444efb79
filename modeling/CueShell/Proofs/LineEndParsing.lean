import CueShell.Proofs.LineEndTokens
import CueShell.Proofs.StatementChunks

/-! # Parsing under another line end

The parser reads spans in two places only: for the positions it reports, and for the text behind a
command that takes its argument raw. On token lists that differ in their spans alone it fails on
both, or returns the same result for both.
-/

namespace CueShell

/-- Parsers at the same place of both token lists. -/
structure Alike (source : List Char) (p q : Parser) : Prop where
  tokens : List.Forall₂ (SameToken source) p.tokens q.tokens
  input : p.input = source
  crlf : q.input = Text.toCrlf source

/-- The same result, with parsers that have consumed the same tokens. -/
def Consumed {α : Type} (source : List Char) (x y : α × Parser) : Prop := x.1 = y.1 ∧ Alike source x.2 y.2

/-- The argument of the command is taken as it stands in the input. -/
def CommandSpec.takesRawText (spec : CommandSpec) : Bool :=
  match spec.argKind with
  | .text | .targetText _ => true
  | _ => false

section Tokens

variable {source : List Char} {p q : Parser} {tokens tokens' : List Spanned}

theorem map_token_eq (same : List.Forall₂ (SameToken source) tokens tokens') :
    tokens'.map Spanned.token = tokens.map Spanned.token := by
  induction same with
  | nil => rfl
  | cons first _ ih => rw [List.map_cons, List.map_cons, first.1, ih]

theorem Alike.peek (alike : Alike source p q) : q.peek = p.peek := by
  obtain ⟨tokens, input⟩ := p
  obtain ⟨tokens', input'⟩ := q
  cases alike.tokens with
  | nil => rfl
  | cons first _ => exact first.1

theorem Alike.atEnd (alike : Alike source p q) : q.atEnd = p.atEnd := by
  rw [Parser.atEnd, Parser.atEnd, alike.peek]

theorem Alike.advance (alike : Alike source p q) : Alike source p.advance q.advance := by
  obtain ⟨tokens, input⟩ := p
  obtain ⟨tokens', input'⟩ := q
  refine ⟨?_, alike.input, alike.crlf⟩
  cases alike.tokens with
  | nil => exact .nil
  | cons _ rest => exact rest

theorem Alike.length (alike : Alike source p q) : q.tokens.length = p.tokens.length :=
  alike.tokens.length_eq.symm

theorem Alike.expect (alike : Alike source p q) (token : Token) :
    Agree (Alike source) (p.expect token) (q.expect token) := by
  rw [Parser.expect, Parser.expect, alike.peek]
  split
  · exact .ok alike.advance
  · exact .error

end Tokens

section Chain

variable {source : List Char} {p q : Parser} {α Op : Type}

theorem takeWords_same {tokens tokens' : List Spanned} (same : List.Forall₂ (SameToken source) tokens tokens') :
    (Parser.takeWords tokens').1 = (Parser.takeWords tokens).1 ∧
      List.Forall₂ (SameToken source) (Parser.takeWords tokens).2 (Parser.takeWords tokens').2 := by
  induction same with
  | nil => exact ⟨rfl, .nil⟩
  | cons first rest ih =>
    rw [Parser.takeWords, Parser.takeWords, first.1]
    split
    · next text found => exact ⟨congrArg (text :: ·) ih.1, ih.2⟩
    · exact ⟨rfl, .cons first rest⟩

theorem Alike.parseAtomWords (alike : Alike source p q) :
    Agree (Consumed source) p.parseAtomWords q.parseAtomWords := by
  rw [Parser.parseAtomWords, Parser.parseAtomWords, alike.peek]
  split
  · exact .error
  · obtain ⟨words, rest⟩ := takeWords_same alike.tokens
    exact .ok ⟨words.symm, rest, alike.input, alike.crlf⟩

theorem Alike.parsePipelineLoop (fuel : ℕ) (segments : List PipeSegment) (words : List String)
    (alike : Alike source p q) :
    Agree (Consumed source) (Parser.parsePipelineLoop fuel segments words p)
      (Parser.parsePipelineLoop fuel segments words q) := by
  induction fuel generalizing segments words p q with
  | zero => exact .ok ⟨rfl, alike⟩
  | succ fuel ih =>
    rw [Parser.parsePipelineLoop, Parser.parsePipelineLoop, alike.peek]
    split
    · split
      · exact .ok ⟨rfl, alike⟩
      · exact .ok ⟨rfl, alike⟩
    · refine alike.advance.parseAtomWords.bind ?_
      rintro ⟨next, p'⟩ ⟨-, q'⟩ ⟨rfl, rest⟩
      exact ih _ _ rest

theorem Alike.parsePipeline (alike : Alike source p q) :
    Agree (Consumed source) p.parsePipeline q.parsePipeline := by
  rw [Parser.parsePipeline, Parser.parsePipeline]
  refine alike.parseAtomWords.bind ?_
  rintro ⟨words, p₁⟩ ⟨-, q₁⟩ ⟨rfl, rest⟩
  dsimp only
  rw [rest.length]
  refine (rest.parsePipelineLoop _ _ _).bind ?_
  rintro ⟨segments, p₂⟩ ⟨-, q₂⟩ ⟨rfl, final⟩
  dsimp only
  split
  · exact .error
  · exact .ok ⟨rfl, final⟩

variable {opOf : Token → Option Op} {operand : Parser → Except ParseError (α × Parser)}
variable {combine : α → Op → α → α}

theorem Alike.leftAssocLoop (operands : ∀ {p q}, Alike source p q → Agree (Consumed source) (operand p) (operand q))
    (fuel : ℕ) (left : α) (alike : Alike source p q) :
    Agree (Consumed source) (Parser.leftAssocLoop opOf operand combine fuel left p)
      (Parser.leftAssocLoop opOf operand combine fuel left q) := by
  induction fuel generalizing left p q with
  | zero => exact .ok ⟨rfl, alike⟩
  | succ fuel ih =>
    rw [Parser.leftAssocLoop, Parser.leftAssocLoop, alike.peek]
    split
    · exact .ok ⟨rfl, alike⟩
    · refine (operands alike.advance).bind ?_
      rintro ⟨right, p'⟩ ⟨-, q'⟩ ⟨rfl, rest⟩
      exact ih _ rest

theorem Alike.parseLeftAssoc (operands : ∀ {p q}, Alike source p q → Agree (Consumed source) (operand p) (operand q))
    (alike : Alike source p q) :
    Agree (Consumed source) (Parser.parseLeftAssoc opOf operand combine p)
      (Parser.parseLeftAssoc opOf operand combine q) := by
  rw [Parser.parseLeftAssoc, Parser.parseLeftAssoc]
  refine (operands alike).bind ?_
  rintro ⟨left, p'⟩ ⟨-, q'⟩ ⟨rfl, rest⟩
  dsimp only
  rw [rest.length]
  exact rest.leftAssocLoop operands _ _

theorem Alike.parseJobExpr (alike : Alike source p q) :
    Agree (Consumed source) p.parseJobExpr q.parseJobExpr := by
  rw [Parser.parseJobExpr, Parser.parseJobExpr]
  refine (alike.parseLeftAssoc Alike.parsePipeline).bind ?_
  rintro ⟨plan, p'⟩ ⟨-, q'⟩ ⟨rfl, rest⟩
  exact .ok ⟨rfl, rest⟩

theorem Alike.parseChain (alike : Alike source p q) :
    Agree (Consumed source) p.parseChain q.parseChain :=
  alike.parseLeftAssoc fun inner => inner.parseLeftAssoc Alike.parseJobExpr

end Chain

section Params

variable {source : List Char} {p q : Parser}

theorem Alike.parseParamValue (alike : Alike source p q) :
    Agree (Consumed source) p.parseParamValue q.parseParamValue := by
  rw [Parser.parseParamValue, Parser.parseParamValue, alike.peek]
  split
  · exact .ok ⟨rfl, alike.advance⟩
  · exact .ok ⟨rfl, alike.advance⟩
  · exact .error

theorem agree_validateModeParamValue (spec : ModeParamSpec) (value : Value) (span span' : Span) :
    Agree (fun _ _ => True) (Parser.validateModeParamValue spec value span)
      (Parser.validateModeParamValue spec value span') := by
  rw [Parser.validateModeParamValue.eq_def, Parser.validateModeParamValue.eq_def]
  split
  · exact .ok trivial
  · exact .ok trivial
  · exact .error

theorem Alike.parseNeedParam (alike : Alike source p q) (command key suffix : String) (span span' : Span) :
    Agree (Consumed source) (p.parseNeedParam command key suffix span)
      (q.parseNeedParam command key suffix span') := by
  rw [Parser.parseNeedParam, Parser.parseNeedParam]
  split_ifs
  · exact .error
  · exact .error
  · refine (alike.expect _).bind fun p₁ q₁ first => first.parseParamValue.bind ?_
    rintro ⟨value, p₂⟩ ⟨-, q₂⟩ ⟨rfl, rest⟩
    cases value with
    | str text => exact .ok ⟨rfl, rest⟩
    | bool value => exact .error

theorem Alike.parseTableParam (alike : Alike source p q) (command key : String) (span span' : Span) :
    Agree (Consumed source) (p.parseTableParam command key span) (q.parseTableParam command key span') := by
  rw [Parser.parseTableParam, Parser.parseTableParam]
  split
  · exact .error
  · split
    · exact .error
    · refine (alike.expect _).bind fun p₁ q₁ first => first.parseParamValue.bind ?_
      rintro ⟨value, p₂⟩ ⟨-, q₂⟩ ⟨rfl, rest⟩
      exact (agree_validateModeParamValue _ _ _ _).bind fun _ _ _ => .ok ⟨rfl, rest⟩

theorem Alike.parseModeParams (command : String) (fuel : ℕ) (params : List (String × Value))
    (alike : Alike source p q) :
    Agree (Consumed source) (Parser.parseModeParams command fuel params p)
      (Parser.parseModeParams command fuel params q) := by
  induction fuel generalizing params p q with
  | zero => exact .ok ⟨rfl, alike⟩
  | succ fuel ih =>
    rw [Parser.parseModeParams, Parser.parseModeParams, alike.peek]
    split
    · exact .ok ⟨rfl, alike.advance⟩
    · exact .error
    · exact ih _ alike.advance
    · next key found =>
      dsimp only
      split
      · refine (alike.advance.parseNeedParam _ _ _ _ _).bind ?_
        rintro ⟨param, p'⟩ ⟨-, q'⟩ ⟨rfl, rest⟩
        exact ih _ rest
      · refine (alike.advance.parseTableParam _ _ _ _).bind ?_
        rintro ⟨param, p'⟩ ⟨-, q'⟩ ⟨rfl, rest⟩
        exact ih _ rest
    · exact .error

end Params

section Arguments

variable {source : List Char} {p q : Parser}

theorem agree_validateIdKind (command : String) (allowed : CommandIdKind) (actual : IdKind)
    (span span' : Span) :
    Agree (fun _ _ => True) (Parser.validateIdKind command allowed actual span)
      (Parser.validateIdKind command allowed actual span') := by
  rw [Parser.validateIdKind.eq_def, Parser.validateIdKind.eq_def]
  dsimp only
  split_ifs
  · exact .ok trivial
  · exact .error

theorem agree_validateTextTarget (command : String) (allowed : CommandIdKind) (target : Token)
    (span span' : Span) :
    Agree (fun _ _ => True) (Parser.validateTextTarget command allowed target span)
      (Parser.validateTextTarget command allowed target span') := by
  rw [Parser.validateTextTarget.eq_def, Parser.validateTextTarget.eq_def]
  dsimp only
  split
  · exact agree_validateIdKind _ _ _ _ _
  · exact .error
  · exact .error

theorem Alike.requireId (alike : Alike source p q) (name : String) (allowed : CommandIdKind)
    (suggestions : List String) :
    Agree (Consumed source) (p.requireId name allowed suggestions) (q.requireId name allowed suggestions) := by
  rw [Parser.requireId, Parser.requireId, alike.peek]
  split
  · exact (agree_validateIdKind _ _ _ _ _).bind fun _ _ _ => .ok ⟨rfl, alike.advance⟩
  · exact .error

theorem Alike.consumeRemainingText (alike : Alike source p q) :
    Consumed source p.consumeRemainingText q.consumeRemainingText := by
  refine ⟨?_, .nil, alike.input, alike.crlf⟩
  have shown := congrArg (List.map Token.display) (map_token_eq alike.tokens)
  rw [List.map_map, List.map_map] at shown
  exact congrArg (" ".intercalate ·) shown.symm

theorem Alike.consumeRemainingRawText (alike : Alike source p q)
    (same : p.consumeRemainingRawText.1 = q.consumeRemainingRawText.1) :
    Consumed source p.consumeRemainingRawText q.consumeRemainingRawText := by
  refine ⟨same, ?_⟩
  obtain ⟨tokens, input⟩ := p
  obtain ⟨tokens', input'⟩ := q
  have none : Alike source ⟨[], input⟩ ⟨[], input'⟩ := ⟨.nil, alike.input, alike.crlf⟩
  cases alike.tokens with
  | nil => exact none
  | cons first rest =>
    have drained (tokens : List Spanned) (input : List Char) (first : Spanned) :
        (⟨first :: tokens, input⟩ : Parser).consumeRemainingRawText.2 = ⟨[], input⟩ := by
      simp [Parser.consumeRemainingRawText, List.getLast?_cons]
    rw [drained, drained]
    exact none

/-- Both parsers agree on an argument, if they agree on the raw text where the command takes it. -/
theorem Alike.parseArgumentForCommand (alike : Alike source p q) (name : String) (spec : CommandSpec)
    (raw : spec.takesRawText = true → p.consumeRemainingRawText.1 = q.consumeRemainingRawText.1) :
    Agree (Consumed source) (p.parseArgumentForCommand name spec) (q.parseArgumentForCommand name spec) := by
  rw [Parser.parseArgumentForCommand.eq_def, Parser.parseArgumentForCommand.eq_def, alike.atEnd, alike.peek]
  cases kind : spec.argKind with
  | chain =>
    dsimp only
    split
    · exact .error
    · refine alike.parseChain.bind ?_
      rintro ⟨chain, p'⟩ ⟨-, q'⟩ ⟨rfl, rest⟩
      exact .ok ⟨rfl, rest⟩
  | cron =>
    dsimp only
    split
    · exact .error
    · refine alike.parseChain.bind ?_
      rintro ⟨chain, p'⟩ ⟨-, q'⟩ ⟨rfl, rest⟩
      exact .ok ⟨rfl, rest⟩
  | tail allowed =>
    refine (alike.requireId _ _ _).bind ?_
    rintro ⟨⟨kind, number⟩, p'⟩ ⟨-, q'⟩ ⟨rfl, rest⟩
    dsimp only at rest ⊢
    rw [rest.peek]
    split
    · next text found =>
      cases Parser.parseUsize text.toList with
      | some bytes => exact .ok ⟨rfl, rest.advance⟩
      | none => exact .ok ⟨rfl, rest⟩
    · exact .ok ⟨rfl, rest⟩
  | id allowed =>
    refine (alike.requireId _ _ _).bind ?_
    rintro ⟨⟨kind, number⟩, p'⟩ ⟨-, q'⟩ ⟨rfl, rest⟩
    exact .ok ⟨rfl, rest⟩
  | text =>
    obtain ⟨same, rest⟩ := alike.consumeRemainingRawText (raw (by simp [CommandSpec.takesRawText, kind]))
    dsimp only
    rw [same]
    split
    · exact .error
    · exact .ok ⟨rfl, rest⟩
  | targetText allowed =>
    obtain ⟨same, rest⟩ := alike.consumeRemainingRawText (raw (by simp [CommandSpec.takesRawText, kind]))
    refine (agree_validateTextTarget _ _ _ _ _).bind fun _ _ _ => ?_
    dsimp only
    rw [same]
    split
    · exact .error
    · exact .ok ⟨rfl, rest⟩
  | optionalId allowed =>
    dsimp only
    split
    · exact (agree_validateIdKind _ _ _ _ _).bind fun _ _ _ => .ok ⟨rfl, alike.advance⟩
    · exact .ok ⟨rfl, alike⟩
  | empty => exact .ok ⟨rfl, alike⟩
  | optionalText =>
    obtain ⟨same, rest⟩ := alike.consumeRemainingText
    dsimp only
    rw [same]
    split
    · exact .ok ⟨rfl, rest⟩
    · exact .ok ⟨rfl, rest⟩

end Arguments

/-- A statement without its place in the input. -/
def Statement.erase : Statement → Statement
  | .command name modeParams argument _ => .command name modeParams argument ⟨0, 0⟩
  | .bareInput argument _ => .bareInput argument ⟨0, 0⟩

/-- A parsed input without places and source texts: its statements with their words and operators. -/
def Ast.erase : Ast → Ast
  | .script items _ => .script (items.map fun item => ⟨"", item.statement.erase, ⟨0, 0⟩⟩) ⟨0, 0⟩
  | .single statement => .single statement.erase

/-- The raw argument of the first command, if it takes one, stays on its line. -/
def Parser.RawOnLine (p : Parser) : Prop :=
  ∀ name spec, p.peek = .command name → commandSpec name = some spec → spec.takesRawText = true →
    '\n' ∉ p.advance.consumeRemainingRawText.1.toList

/-- The same statement up to its place, with parsers that have consumed the same tokens. -/
def SameStatement (source : List Char) (x y : Statement × Parser) : Prop :=
  x.1.erase = y.1.erase ∧ Alike source x.2 y.2

section Statements

variable {source : List Char} {p q : Parser}

theorem forall₂_getLast? {α β : Type} {R : α → β → Prop} {a : α} {b : β} {as : List α} {bs : List β}
    (first : R a b) (rest : List.Forall₂ R as bs) :
    ∃ x y, (a :: as).getLast? = some x ∧ (b :: bs).getLast? = some y ∧ R x y := by
  induction rest generalizing a b with
  | nil => exact ⟨a, b, rfl, rfl, first⟩
  | cons next _ ih =>
    obtain ⟨x, y, last, last', related⟩ := ih next
    exact ⟨x, y, by simpa [List.getLast?_cons] using last, by simpa [List.getLast?_cons] using last', related⟩

/-- Raw text goes to the same text with longer line ends. -/
theorem Alike.rawText (alike : Alike source p q) :
    q.consumeRemainingRawText.1.toList = Text.toCrlf p.consumeRemainingRawText.1.toList := by
  obtain ⟨tokens, input⟩ := p
  obtain ⟨tokens', input'⟩ := q
  obtain rfl : input = source := alike.input
  obtain rfl : input' = Text.toCrlf input := alike.crlf
  cases alike.tokens with
  | nil => rfl
  | cons first rest =>
    obtain ⟨last, last', isLast, isLast', -, _, cut, -, isCut, span, span'⟩ := forall₂_getLast? first rest
    obtain ⟨-, start, _, isStart, -, spanFirst, spanFirst'⟩ := first
    simp only [Parser.consumeRemainingRawText, List.head?_cons, isLast, isLast', String.toList_ofList,
      spanFirst, spanFirst', span, span']
    exact Text.slice_toCrlf isStart isCut

theorem commandSpecs_raw : ∀ spec ∈ commandSpecs, spec.takesRawText = true → spec.acceptsModeParams = false := by
  decide

theorem Alike.commandArgument (alike : Alike source p q) (name : String) (spec : CommandSpec)
    (params : List (String × Value)) (start start' : ℕ)
    (raw : spec.takesRawText = true → p.consumeRemainingRawText.1 = q.consumeRemainingRawText.1) :
    Agree (SameStatement source)
      (do
        let (argument, p) ← p.parseArgumentForCommand name spec
        .ok (.command name params argument ⟨start, p.peekSpan.start⟩, p))
      (do
        let (argument, q) ← q.parseArgumentForCommand name spec
        .ok (.command name params argument ⟨start', q.peekSpan.start⟩, q)) := by
  refine (alike.parseArgumentForCommand name spec raw).bind ?_
  rintro ⟨found, p'⟩ ⟨-, q'⟩ ⟨rfl, rest⟩
  exact .ok ⟨rfl, rest⟩

theorem Alike.parseCommand (alike : Alike source p q) {name : String} (isCommand : p.peek = .command name)
    (raw : p.RawOnLine) (start start' : ℕ) :
    Agree (SameStatement source) (p.parseCommand name start) (q.parseCommand name start') := by
  rw [Parser.parseCommand, Parser.parseCommand]
  dsimp only
  rw [Parser.commandSpecOrError, Parser.commandSpecOrError]
  cases known : commandSpec name with
  | none => exact .error
  | some spec =>
    simp only [Parser.ok_bind]
    rw [alike.advance.peek, alike.advance.length]
    split_ifs with opens accepts
    · refine (alike.advance.advance.parseModeParams name _ _).bind ?_
      rintro ⟨params, p'⟩ ⟨-, q'⟩ ⟨rfl, rest⟩
      refine rest.commandArgument name spec _ start start' fun takesRaw => ?_
      have member : spec ∈ commandSpecs := List.mem_of_find?_eq_some known
      simp [commandSpecs_raw spec member takesRaw] at accepts
    · exact .error
    · refine alike.advance.commandArgument name spec _ start start' fun takesRaw => ?_
      have same := alike.advance.rawText
      rw [Text.toCrlf_of_plain (raw name spec isCommand known takesRaw)] at same
      exact String.toList_injective same.symm

theorem Alike.parseStatement (alike : Alike source p q) (raw : p.RawOnLine) :
    Agree (SameStatement source) p.parseStatement q.parseStatement := by
  rw [Parser.parseStatement, Parser.parseStatement]
  dsimp only
  rw [alike.peek]
  split
  · next name isCommand => exact alike.parseCommand isCommand raw _ _
  · exact .ok ⟨rfl, alike⟩
  · refine alike.parseChain.bind ?_
    rintro ⟨chain, p'⟩ ⟨-, q'⟩ ⟨rfl, rest⟩
    exact .ok ⟨rfl, rest⟩

theorem Alike.parseSingleStatement (alike : Alike source p q) (raw : p.RawOnLine) :
    Agree (fun statement statement' => Statement.erase statement = statement'.erase)
      p.parseSingleStatement q.parseSingleStatement := by
  rw [Parser.parseSingleStatement, Parser.parseSingleStatement]
  refine (alike.parseStatement raw).bind ?_
  rintro ⟨statement, p'⟩ ⟨statement', q'⟩ ⟨same, rest⟩
  dsimp only at same rest ⊢
  rw [rest.atEnd]
  split
  · exact .ok same
  · exact .error

end Statements

end CueShell
