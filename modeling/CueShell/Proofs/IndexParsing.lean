import CueShell.Model.Parser.FrontEnd
import CueShell.Proofs.ByteTokens

/-! # The parser by positions does not panic

At every position the parser by token positions does what the parser over the rest of the tokens does: it
ends with the same value or the same error, at or behind its position. It takes a token only where one
stands, and every loop ends because each round takes one.
-/

namespace CueShell

open Attempt

/-- The mode parameters in parentheses, if there are any. -/
def Parser.parseOptionalParams (p : Parser) (name : String) (spec : CommandSpec) :
    Except ParseError (List (String × Value) × Parser) :=
  if p.peek = .modeParenOpen then
    if spec.acceptsModeParams then p.advance.parseModeParams name (p.tokens.length + 1) []
    else p.fail .invalidModeParam ("`:" ++ name ++ "` does not accept mode params") [spec.usage]
  else .ok ([], p)

namespace IndexParser

/-- The parser over the tokens from the position on. -/
def view (p : IndexParser) : Parser := ⟨p.tokens.drop p.pos, p.input⟩

/-- The other parser reads the same tokens, at or behind the position. -/
structure LeadsTo (p p' : IndexParser) : Prop where
  tokens : p'.tokens = p.tokens
  input : p'.input = p.input
  later : p.pos ≤ p'.pos

/-- The same value, and the parser over the tokens behind it. -/
def SameValue {α : Type} (p : IndexParser) (own : α × IndexParser) (value : α × Parser) : Prop :=
  value = (own.1, own.2.view) ∧ p.LeadsTo own.2

section Steps

variable {α β : Type} {p p' p'' : IndexParser}

theorem LeadsTo.refl (p : IndexParser) : p.LeadsTo p := ⟨rfl, rfl, le_rfl⟩

theorem LeadsTo.trans (first : p.LeadsTo p') (second : p'.LeadsTo p'') : p.LeadsTo p'' :=
  ⟨second.tokens.trans first.tokens, second.input.trans first.input, first.later.trans second.later⟩

@[simp] theorem peek_view (p : IndexParser) : p.view.peek = p.peek := by
  rw [Parser.peek, peek, view, List.head?_drop]

@[simp] theorem inputLen_view (p : IndexParser) : p.view.inputLen = p.inputLen := rfl

@[simp] theorem peekSpan_view (p : IndexParser) : p.view.peekSpan = p.peekSpan := by
  rw [Parser.peekSpan, peekSpan, inputLen_view, view, List.head?_drop]

@[simp] theorem atEnd_view (p : IndexParser) : p.view.atEnd = p.atEnd := by
  rw [Parser.atEnd, atEnd, peek_view]

theorem length_view (p : IndexParser) : p.view.tokens.length = p.tokens.length - p.pos :=
  List.length_drop

/-- Where a token stands, the parser advances behind it. -/
theorem advance_of_peek (real : p.peek ≠ .eof) :
    ∃ spanned, p.tokens[p.pos]? = some spanned ∧ spanned.token = p.peek ∧
      p.advance = pure (spanned, { p with pos := p.pos + 1 }) ∧ p.pos < p.tokens.length := by
  cases here : p.tokens[p.pos]? with
  | none => simp [peek, here] at real
  | some spanned =>
    refine ⟨spanned, rfl, by simp [peek, here], ?_, ?_⟩
    · rw [advance, here, ofOption, pure_bind]
    · exact (List.getElem?_eq_some_iff.mp here).1

theorem view_advance (p : IndexParser) : ({ p with pos := p.pos + 1 } : IndexParser).view = p.view.advance := by
  rw [view, Parser.advance, view, List.tail_drop]

theorem leadsTo_next (p : IndexParser) : p.LeadsTo { p with pos := p.pos + 1 } :=
  ⟨rfl, rfl, Nat.le_succ _⟩

/-- A matching pair of parsers may go on from where it stopped. -/
theorem bind_matches {own : Attempt ParseError (α × IndexParser)} {value : Except ParseError (α × Parser)}
    {next : α × IndexParser → Attempt ParseError (β × IndexParser)}
    {next' : α × Parser → Except ParseError (β × Parser)} (first : Matches (SameValue p) own value)
    (second : ∀ result p', p.LeadsTo p' → Matches (SameValue p) (next (result, p')) (next' (result, p'.view))) :
    Matches (SameValue p) (own >>= next) (value >>= next') := by
  refine first.bind ?_
  rintro ⟨result, p'⟩ _ ⟨rfl, leads⟩
  exact second result p' leads

/-- What matches from a later position matches from here. -/
theorem weaken {own : Attempt ParseError (α × IndexParser)} {value : Except ParseError (α × Parser)}
    (leads : p.LeadsTo p') (later : Matches (SameValue p') own value) : Matches (SameValue p) own value :=
  later.imp fun _ _ same => ⟨same.1, leads.trans same.2⟩

theorem fail_matches {related : α → β → Prop} (kind : ParseErrorKind) (message : String) (suggestions : List String) :
    Matches related (p.fail kind message suggestions : Attempt ParseError α)
      (p.view.fail kind message suggestions : Except ParseError β) := by
  rw [fail, Parser.fail, peekSpan_view]
  exact .error _

end Steps

section Chain

open CueShell.Parser (wordText pipeOp LogicOp logicOp parallelOp serialOp combineJobs takeWords)

variable {p : IndexParser} {fuel : ℕ}

theorem peek_of_word {text : String} (word : wordText p.peek = some text) : p.peek ≠ .eof := by
  intro is
  simp [is, wordText] at word

theorem atomWordsLoop_matches (words : List String) (enough : p.tokens.length - p.pos < fuel) :
    Matches (SameValue p) (atomWordsLoop fuel words p)
      (.ok (words ++ (takeWords p.view.tokens).1, { p.view with tokens := (takeWords p.view.tokens).2 })) := by
  induction fuel generalizing words p with
  | zero => exact absurd enough (Nat.not_lt_zero _)
  | succ fuel ih =>
    rw [atomWordsLoop]
    cases word : wordText p.peek with
    | none =>
      have stop : takeWords p.view.tokens = ([], p.view.tokens) := by
        cases tokens : p.view.tokens with
        | nil => rfl
        | cons spanned rest =>
          have here : p.peek = spanned.token := by rw [← peek_view, Parser.peek, tokens]; rfl
          rw [takeWords, ← here, word]
      rw [stop, List.append_nil]
      exact .ok ⟨rfl, .refl p⟩
    | some text =>
      obtain ⟨spanned, here, token, advanced, inside⟩ := advance_of_peek (peek_of_word word)
      have tokens : p.view.tokens = spanned :: ({ p with pos := p.pos + 1 } : IndexParser).view.tokens :=
        List.drop_eq_getElem?_toList_append.trans (by rw [here]; rfl)
      dsimp only
      rw [advanced, pure_bind, tokens, takeWords, token, word]
      dsimp only
      have rest := ih (p := { p with pos := p.pos + 1 }) (words ++ [text]) (by dsimp only; omega)
      rw [List.append_assoc, List.singleton_append] at rest
      exact weaken (leadsTo_next p) rest

theorem parseAtomWords_matches (p : IndexParser) :
    Matches (SameValue p) p.parseAtomWords p.view.parseAtomWords := by
  rw [parseAtomWords, Parser.parseAtomWords, peek_view]
  split_ifs with group
  · obtain ⟨spanned, -, -, advanced, -⟩ := advance_of_peek (p := p) (by simp [group])
    rw [advanced, pure_bind]
    exact fail_matches ..
  · exact atomWordsLoop_matches [] (Nat.lt_succ_self _)

theorem parsePipelineLoop_matches (segments : List PipeSegment) (words : List String)
    (enough : p.tokens.length - p.pos < fuel) :
    Matches (SameValue p) (parsePipelineLoop fuel segments words p)
      (Parser.parsePipelineLoop fuel segments words p.view) := by
  induction fuel generalizing segments words p with
  | zero => exact absurd enough (Nat.not_lt_zero _)
  | succ fuel ih =>
    rw [parsePipelineLoop, Parser.parsePipelineLoop, peek_view]
    cases pipe : pipeOp p.peek with
    | none =>
      dsimp only
      split_ifs
      · exact .ok ⟨rfl, .refl p⟩
      · exact .ok ⟨rfl, .refl p⟩
    | some op =>
      obtain ⟨spanned, -, -, advanced, inside⟩ := advance_of_peek (p := p) (by intro is; simp [is, pipeOp] at pipe)
      dsimp only
      rw [advanced, pure_bind, ← view_advance]
      refine weaken (leadsTo_next p) (bind_matches (parseAtomWords_matches _) fun next p' leads => ?_)
      have later : p.pos + 1 ≤ p'.pos := leads.later
      have same : p'.tokens.length = p.tokens.length := congrArg List.length leads.tokens
      exact weaken leads (ih _ _ (by omega))

theorem parsePipeline_matches (p : IndexParser) : Matches (SameValue p) p.parsePipeline p.view.parsePipeline := by
  refine bind_matches (parseAtomWords_matches p) fun words p' leads => ?_
  refine bind_matches (weaken leads ?_) fun segments p'' leads' => ?_
  · rw [length_view]
    exact parsePipelineLoop_matches [] words (Nat.lt_succ_self _)
  · dsimp only
    split_ifs
    · exact fail_matches ..
    · exact .ok ⟨rfl, leads'⟩

section LeftAssoc

variable {α Op : Type} {opOf : Token → Option Op} {combine : α → Op → α → α}
  {operand : IndexParser → Attempt ParseError (α × IndexParser)}
  {operand' : Parser → Except ParseError (α × Parser)}

theorem leftAssocLoop_matches (silent : opOf .eof = none)
    (operands : ∀ p, Matches (SameValue p) (operand p) (operand' p.view)) (left : α)
    (enough : p.tokens.length - p.pos < fuel) :
    Matches (SameValue p) (leftAssocLoop opOf operand combine fuel left p)
      (Parser.leftAssocLoop opOf operand' combine fuel left p.view) := by
  induction fuel generalizing left p with
  | zero => exact absurd enough (Nat.not_lt_zero _)
  | succ fuel ih =>
    rw [leftAssocLoop, Parser.leftAssocLoop, peek_view]
    cases found : opOf p.peek with
    | none => exact .ok ⟨rfl, .refl p⟩
    | some op =>
      obtain ⟨spanned, -, -, advanced, inside⟩ := advance_of_peek (p := p) (by intro is; simp [is, silent] at found)
      dsimp only
      rw [advanced, pure_bind, ← view_advance]
      refine weaken (leadsTo_next p) (bind_matches (operands _) fun right p' leads => ?_)
      have later : p.pos + 1 ≤ p'.pos := leads.later
      have same : p'.tokens.length = p.tokens.length := congrArg List.length leads.tokens
      exact weaken leads (ih _ (by omega))

/-- A level of the grammar matches if its operands do. -/
theorem parseLeftAssoc_matches (silent : opOf .eof = none)
    (operands : ∀ p, Matches (SameValue p) (operand p) (operand' p.view)) (p : IndexParser) :
    Matches (SameValue p) (p.parseLeftAssoc opOf operand combine) (p.view.parseLeftAssoc opOf operand' combine) := by
  refine bind_matches (operands p) fun left p' leads => ?_
  dsimp only
  rw [length_view]
  exact weaken leads (leftAssocLoop_matches silent operands left (Nat.lt_succ_self _))

end LeftAssoc

theorem parseJobExpr_matches (p : IndexParser) : Matches (SameValue p) p.parseJobExpr p.view.parseJobExpr := by
  refine bind_matches (parseLeftAssoc_matches rfl parsePipeline_matches p) fun plan p' leads => ?_
  exact .ok ⟨rfl, leads⟩

theorem parseParallel_matches (p : IndexParser) : Matches (SameValue p) p.parseParallel p.view.parseParallel :=
  parseLeftAssoc_matches rfl parseJobExpr_matches p

theorem parseChain_matches (p : IndexParser) : Matches (SameValue p) p.parseChain p.view.parseChain :=
  parseLeftAssoc_matches rfl parseParallel_matches p

end Chain

section Params

open CueShell.Parser (validateModeParamValue)

variable {p : IndexParser} {fuel : ℕ}

theorem expect_matches {expected : Token} (real : expected ≠ .eof) :
    Matches (fun own value => value = own.2.view ∧ p.LeadsTo own.2) (p.expect expected) (p.view.expect expected) := by
  rw [expect, Parser.expect, peek_view]
  split_ifs with same
  · obtain ⟨spanned, -, -, advanced, -⟩ := advance_of_peek (p := p) (same ▸ real)
    rw [advanced, ← view_advance]
    exact .ok ⟨rfl, leadsTo_next p⟩
  · exact fail_matches ..

theorem parseParamValue_matches (p : IndexParser) :
    Matches (SameValue p) p.parseParamValue p.view.parseParamValue := by
  rw [parseParamValue, Parser.parseParamValue, peek_view]
  cases token : p.peek
  case paramValue value =>
    obtain ⟨spanned, -, -, advanced, -⟩ := advance_of_peek (p := p) (by simp [token])
    dsimp only
    rw [advanced, pure_bind, ← view_advance]
    exact .ok ⟨rfl, leadsTo_next p⟩
  case word text =>
    obtain ⟨spanned, -, -, advanced, -⟩ := advance_of_peek (p := p) (by simp [token])
    dsimp only
    rw [advanced, pure_bind, ← view_advance]
    exact .ok ⟨rfl, leadsTo_next p⟩
  all_goals exact fail_matches ..

theorem parseNeedParam_matches (p : IndexParser) (command key suffix : String) (keySpan : Span) :
    Matches (SameValue p) (p.parseNeedParam command key suffix keySpan)
      (p.view.parseNeedParam command key suffix keySpan) := by
  rw [parseNeedParam, Parser.parseNeedParam]
  split_ifs
  · exact .error _
  · exact .error _
  · refine (expect_matches (by decide)).bind ?_
    rintro ⟨_, p'⟩ _ ⟨rfl, leads⟩
    refine bind_matches (weaken leads (parseParamValue_matches p')) fun value p'' leads' => ?_
    dsimp only
    rw [peekSpan_view]
    cases value with
    | str text => exact .ok ⟨rfl, leads'⟩
    | bool value => exact .error _

theorem parseTableParam_matches (p : IndexParser) (command key : String) (keySpan : Span) :
    Matches (SameValue p) (p.parseTableParam command key keySpan)
      (p.view.parseTableParam command key keySpan) := by
  rw [parseTableParam, Parser.parseTableParam]
  cases modeParamSpec key with
  | none => exact .error _
  | some known =>
    cases modeParamSpecForCommand command key with
    | none => exact .error _
    | some spec =>
      refine (expect_matches (by decide)).bind ?_
      rintro ⟨_, p'⟩ _ ⟨rfl, leads⟩
      refine bind_matches (weaken leads (parseParamValue_matches p')) fun value p'' leads' => ?_
      dsimp only
      rw [peekSpan_view]
      refine (matches_eq_iff.mpr rfl).bind ?_
      rintro _ _ rfl
      exact .ok ⟨rfl, leads'⟩

/-- A parameter behind its key. -/
theorem parseParam_matches {spanned : Spanned} (p : IndexParser) (here : p.tokens[p.pos]? = some spanned)
    (command key : String) :
    Matches (SameValue { p with pos := p.pos + 1 }) (({ p with pos := p.pos + 1 } : IndexParser).parseParam command key)
      (match Text.stripPrefix "need.".toList key.toList with
        | some suffix => p.view.advance.parseNeedParam command key (String.ofList suffix) p.peekSpan
        | none => p.view.advance.parseTableParam command key p.peekSpan) := by
  have span : ({ p with pos := p.pos + 1 } : IndexParser).lastSpan = pure p.peekSpan := by
    rw [lastSpan, if_neg (Nat.succ_ne_zero _), Nat.add_sub_cancel, here, ofOption, pure_bind, peekSpan, here]
    rfl
  rw [parseParam, span, pure_bind, ← view_advance]
  cases Text.stripPrefix "need.".toList key.toList with
  | none => exact parseTableParam_matches ..
  | some suffix => exact parseNeedParam_matches ..

theorem parseModeParams_matches (command : String) (params : List (String × Value))
    (enough : p.tokens.length - p.pos < fuel) :
    Matches (SameValue p) (parseModeParams command fuel params p)
      (Parser.parseModeParams command fuel params p.view) := by
  induction fuel generalizing params p with
  | zero => exact absurd enough (Nat.not_lt_zero _)
  | succ fuel ih =>
    rw [parseModeParams, Parser.parseModeParams, peek_view]
    cases token : p.peek
    case modeParenClose =>
      obtain ⟨spanned, -, -, advanced, -⟩ := advance_of_peek (p := p) (by simp [token])
      dsimp only
      rw [advanced, pure_bind, ← view_advance]
      exact .ok ⟨rfl, leadsTo_next p⟩
    case comma =>
      obtain ⟨spanned, -, -, advanced, inside⟩ := advance_of_peek (p := p) (by simp [token])
      dsimp only
      rw [advanced, pure_bind, ← view_advance]
      exact weaken (leadsTo_next p) (ih _ (by dsimp only; omega))
    case word key =>
      obtain ⟨spanned, here, -, advanced, inside⟩ := advance_of_peek (p := p) (by simp [token])
      dsimp only
      rw [advanced, pure_bind, peekSpan_view]
      have goes : ∀ value, Matches (SameValue { p with pos := p.pos + 1 })
          (({ p with pos := p.pos + 1 } : IndexParser).parseParam command key) value →
          Matches (SameValue p)
            (({ p with pos := p.pos + 1 } : IndexParser).parseParam command key >>= fun read =>
              parseModeParams command fuel (params ++ [read.1]) read.2)
            (value >>= fun read => Parser.parseModeParams command fuel (params ++ [read.1]) read.2) := by
        intro value param
        refine weaken (leadsTo_next p) (bind_matches param fun result p' leads => ?_)
        have later : p.pos + 1 ≤ p'.pos := leads.later
        have same : p'.tokens.length = p.tokens.length := congrArg List.length leads.tokens
        exact weaken leads (ih _ (by omega))
      have param := parseParam_matches p here command key
      revert param
      cases Text.stripPrefix "need.".toList key.toList with
      | none => exact goes _
      | some suffix => exact goes _
    all_goals exact fail_matches ..

end Params

section Texts

variable {p : IndexParser} {fuel : ℕ}

/-- Where a statement stands in its input: its tokens are real, in order and between characters, and the
names of its commands are below 128. -/
structure Laid (p : IndexParser) : Prop where
  real : ∀ spanned ∈ p.tokens, spanned.token ≠ .eof
  bounds : ∀ spanned ∈ p.tokens, Text.IsBoundary p.input spanned.span.start ∧ Text.IsBoundary p.input spanned.span.stop ∧
    spanned.span.start ≤ spanned.span.stop
  order : p.tokens.Pairwise fun first later => first.span.stop ≤ later.span.start
  names : ∀ spanned ∈ p.tokens, ∀ name, spanned.token = .command name → ∀ c ∈ name.toList, c.toNat < 128

/-- Tokens in order span from the start of the first to the end of the last. -/
theorem start_le_stop {tokens : List Spanned} {first last : Spanned}
    (order : tokens.Pairwise fun first later => first.span.stop ≤ later.span.start)
    (fits : ∀ spanned ∈ tokens, spanned.span.start ≤ spanned.span.stop) (head : tokens.head? = some first)
    (final : tokens.getLast? = some last) : first.span.start ≤ last.span.stop := by
  obtain ⟨rest, rfl⟩ := List.head?_eq_some_iff.mp head
  have own := fits first (by simp)
  rcases List.mem_cons.mp (List.mem_of_getLast? final) with rfl | later
  · exact own
  · have next := List.rel_of_pairwise_cons order later
    have fit := fits last (by simp [later])
    omega

theorem Laid.leadsTo {p' : IndexParser} (laid : p.Laid) (leads : p.LeadsTo p') : p'.Laid := by
  obtain ⟨tokens, pos, input⟩ := p'
  obtain ⟨rfl, rfl, -⟩ := leads
  exact ⟨laid.real, laid.bounds, laid.order, laid.names⟩

/-- With real tokens the end is behind them all. -/
theorem Laid.atEnd_iff (laid : p.Laid) : p.atEnd = true ↔ p.tokens.length ≤ p.pos := by
  rw [atEnd, beq_iff_eq, peek]
  cases here : p.tokens[p.pos]? with
  | none => simpa using List.getElem?_eq_none_iff.mp here
  | some spanned =>
    obtain ⟨inside, rfl⟩ := List.getElem?_eq_some_iff.mp here
    have real := laid.real _ (List.getElem_mem inside)
    simpa [real] using inside

/-- The rest of the tokens is passed. -/
theorem drainLoop_eq (laid : p.Laid) (passed : List Token) (enough : p.tokens.length - p.pos < fuel) :
    drainLoop fuel passed p =
      pure (passed ++ p.view.tokens.map Spanned.token, { p with pos := max p.pos p.tokens.length }) := by
  induction fuel generalizing passed p with
  | zero => exact absurd enough (Nat.not_lt_zero _)
  | succ fuel ih =>
    rw [drainLoop]
    by_cases ends : p.tokens.length ≤ p.pos
    · have none : p.view.tokens = [] := List.drop_eq_nil_of_le ends
      rw [if_pos (laid.atEnd_iff.mpr ends), none, List.map_nil, List.append_nil, max_eq_left ends]
    · have more : p.atEnd = false := by rw [← Bool.not_eq_true, laid.atEnd_iff]; exact ends
      have real : p.peek ≠ .eof := by simpa [atEnd] using more
      obtain ⟨spanned, here, token, advanced, inside⟩ := advance_of_peek real
      have tokens : p.view.tokens = spanned :: ({ p with pos := p.pos + 1 } : IndexParser).view.tokens :=
        List.drop_eq_getElem?_toList_append.trans (by rw [here]; rfl)
      have first : max p.pos p.tokens.length = p.tokens.length := max_eq_right (Nat.le_of_lt inside)
      have second : max (p.pos + 1) p.tokens.length = p.tokens.length := max_eq_right inside
      rw [if_neg (by simp [more]), advanced, pure_bind]
      dsimp only
      rw [ih (laid.leadsTo (leadsTo_next p)) _ (by dsimp only; omega), tokens, List.map_cons, List.append_assoc,
        List.singleton_append, first, second]

theorem drain_eq (laid : p.Laid) :
    drainLoop p.rounds [] p =
      pure (p.view.tokens.map Spanned.token, { p with pos := max p.pos p.tokens.length }) :=
  drainLoop_eq laid [] (Nat.lt_succ_self _)

/-- Behind the last token nothing is left. -/
theorem view_end (p : IndexParser) :
    ({ p with pos := max p.pos p.tokens.length } : IndexParser).view = { p.view with tokens := [] } := by
  rw [view, view]
  dsimp only
  rw [List.drop_eq_nil_of_le (le_max_right ..)]

theorem leadsTo_end (p : IndexParser) : p.LeadsTo { p with pos := max p.pos p.tokens.length } :=
  ⟨rfl, rfl, le_max_left ..⟩

theorem consumeRemainingText_matches (laid : p.Laid) :
    Matches (SameValue p) p.consumeRemainingText (.ok p.view.consumeRemainingText) := by
  rw [consumeRemainingText, drain_eq laid, pure_bind, Parser.consumeRemainingText]
  refine .ok ⟨?_, leadsTo_end p⟩
  rw [view_end, List.map_map]
  rfl

theorem consumeRemainingRawText_matches (laid : p.Laid) :
    Matches (SameValue p) p.consumeRemainingRawText (.ok p.view.consumeRemainingRawText) := by
  rw [consumeRemainingRawText, Parser.consumeRemainingRawText]
  by_cases ends : p.tokens.length ≤ p.pos
  · have none : p.view.tokens = [] := List.drop_eq_nil_of_le ends
    rw [if_pos (laid.atEnd_iff.mpr ends), none]
    exact .ok ⟨rfl, .refl p⟩
  · have more : p.atEnd = false := by rw [← Bool.not_eq_true, laid.atEnd_iff]; exact ends
    have inside := Nat.lt_of_not_le ends
    have here : p.tokens[p.pos]? = some p.tokens[p.pos] := List.getElem?_eq_getElem inside
    have head : p.view.tokens.head? = some p.tokens[p.pos] := by rw [view, List.head?_drop, here]
    obtain ⟨last, final⟩ : ∃ last, p.tokens.getLast? = some last := by
      cases final : p.tokens.getLast? with
      | none =>
        rw [List.getLast?_eq_none_iff] at final
        simp [final] at inside
      | some last => exact ⟨last, rfl⟩
    have final' : p.view.tokens.getLast? = some last := by
      rw [view, List.getLast?_drop, if_neg ends, final]
    obtain ⟨start, -, -⟩ := laid.bounds _ (List.getElem_mem inside)
    obtain ⟨-, stop, -⟩ := laid.bounds _ (List.mem_of_getLast? final)
    have between : p.tokens[p.pos].span.start ≤ last.span.stop :=
      start_le_stop (laid.order.sublist (List.drop_sublist ..))
        (fun spanned member => (laid.bounds _ (List.mem_of_mem_drop member)).2.2) head final'
    rw [if_neg (by simp [more]), here, ofOption, pure_bind, final, drain_eq laid, pure_bind]
    dsimp only [Option.map_some, Option.getD_some]
    rw [strSlice_of_boundaries between start stop, pure_bind, head, final']
    refine .ok ⟨?_, leadsTo_end p⟩
    rw [view_end]
    rfl

end Texts

section Commands

open CueShell.Parser (validateIdKind validateTextTarget parseUsize)

variable {p : IndexParser}

theorem ofExcept_bind_matches {α β γ : Type} {related : β → γ → Prop} {result : Except ParseError α}
    {next : α → Attempt ParseError β} {next' : α → Except ParseError γ}
    (goes : ∀ value, Matches related (next value) (next' value)) :
    Matches related (ofExcept result >>= next) (result >>= next') := by
  refine (matches_eq_iff.mpr rfl).bind ?_
  rintro value _ rfl
  exact goes value

theorem requireId_matches (p : IndexParser) (name : String) (allowed : CommandIdKind) (suggestions : List String) :
    Matches (SameValue p) (p.requireId name allowed suggestions) (p.view.requireId name allowed suggestions) := by
  rw [requireId, Parser.requireId, peek_view, peekSpan_view]
  cases token : p.peek
  case idRef kind number =>
    obtain ⟨spanned, -, -, advanced, -⟩ := advance_of_peek (p := p) (by simp [token])
    refine ofExcept_bind_matches fun _ => ?_
    rw [advanced, pure_bind, ← view_advance]
    exact .ok ⟨rfl, leadsTo_next p⟩
  all_goals exact fail_matches ..

/-- The byte count behind the ID of `:tail`. -/
theorem parseTailBytes_matches (p : IndexParser) (kind : IdKind) (number : ℕ) :
    Matches (SameValue p)
      (do
        let (bytes, p) ← p.parseTailBytes
        pure (Argument.tailRef kind number bytes, p))
      (match p.view.peek with
        | .word text =>
            match parseUsize text.toList with
            | some bytes => .ok (.tailRef kind number (some bytes), p.view.advance)
            | none => .ok (.tailRef kind number none, p.view)
        | _ => .ok (.tailRef kind number none, p.view)) := by
  rw [parseTailBytes, peek_view]
  cases token : p.peek
  case word text =>
    dsimp only
    cases parseUsize text.toList with
    | none => exact .ok ⟨rfl, .refl p⟩
    | some bytes =>
      obtain ⟨spanned, -, -, advanced, -⟩ := advance_of_peek (p := p) (by simp [token])
      dsimp only
      rw [advanced, ← view_advance]
      exact .ok ⟨rfl, leadsTo_next p⟩
  all_goals exact .ok ⟨rfl, .refl p⟩

theorem requireText_matches (laid : p.Laid) (message : String) (suggestions : List String) :
    Matches (SameValue p) (p.requireText message suggestions)
      (if p.view.consumeRemainingRawText.1 = "" then
          p.view.consumeRemainingRawText.2.fail .missingArgument message suggestions
        else .ok (.text p.view.consumeRemainingRawText.1, p.view.consumeRemainingRawText.2)) := by
  rw [requireText]
  have consumed := consumeRemainingRawText_matches laid
  obtain ⟨⟨text, p'⟩, ends, same, leads⟩ := consumed
  rw [ends, pure_bind, same]
  dsimp only
  split_ifs
  · exact fail_matches ..
  · exact .ok ⟨rfl, leads⟩

theorem parseChainArgument_matches (p : IndexParser) :
    Matches (SameValue p) p.parseChainArgument
      (do
        let (chain, p) ← p.view.parseChain
        .ok (.chain chain, p)) :=
  bind_matches (parseChain_matches p) fun _ _ leads => .ok ⟨rfl, leads⟩

theorem parseArgumentForCommand_matches (laid : p.Laid) (name : String) (spec : CommandSpec) :
    Matches (SameValue p) (p.parseArgumentForCommand name spec) (p.view.parseArgumentForCommand name spec) := by
  rw [parseArgumentForCommand, Parser.parseArgumentForCommand]
  cases spec.argKind with
  | chain =>
    dsimp only
    rw [atEnd_view]
    split_ifs
    · exact fail_matches ..
    · exact parseChainArgument_matches p
  | cron =>
    dsimp only
    rw [atEnd_view]
    split_ifs
    · exact fail_matches ..
    · exact parseChainArgument_matches p
  | tail allowed =>
    refine bind_matches (requireId_matches ..) ?_
    rintro ⟨kind, number⟩ p' leads
    exact weaken leads (parseTailBytes_matches p' kind number)
  | id allowed =>
    refine bind_matches (requireId_matches ..) ?_
    rintro ⟨kind, number⟩ p' leads
    exact .ok ⟨rfl, leads⟩
  | text => exact requireText_matches laid ..
  | targetText allowed =>
    dsimp only
    rw [peek_view, peekSpan_view]
    exact ofExcept_bind_matches fun _ => requireText_matches laid ..
  | optionalId allowed =>
    dsimp only
    rw [peek_view, peekSpan_view]
    cases token : p.peek
    case idRef kind number =>
      obtain ⟨spanned, -, -, advanced, -⟩ := advance_of_peek (p := p) (by simp [token])
      refine ofExcept_bind_matches fun _ => ?_
      rw [advanced, pure_bind, ← view_advance]
      exact .ok ⟨rfl, leadsTo_next p⟩
    all_goals exact .ok ⟨rfl, .refl p⟩
  | empty => exact .ok ⟨rfl, .refl p⟩
  | optionalText =>
    obtain ⟨⟨text, p'⟩, ends, same, leads⟩ := consumeRemainingText_matches laid
    dsimp only
    rw [ends, pure_bind, same]
    dsimp only
    split_ifs
    · exact .ok ⟨rfl, leads⟩
    · exact .ok ⟨rfl, leads⟩

section Distance

variable {a b : List Char} {c : Char}

theorem length_editRow (c : Char) (b : List Char) (above : List ℕ) (left : ℕ) (size : above.length = b.length + 1) :
    (editRow c b above left).length = b.length := by
  induction b generalizing above left with
  | nil => simp [editRow]
  | cons d b ih =>
    obtain ⟨diagonal, up, previous, rfl⟩ : ∃ diagonal up previous, above = diagonal :: up :: previous := by
      match above, size with
      | diagonal :: up :: previous, _ => exact ⟨diagonal, up, previous, rfl⟩
    rw [editRow, List.length_cons, ih (up :: previous) _ (by simpa using size), List.length_cons]

theorem length_editRows (row : ℕ) (above : List ℕ) (size : above.length = b.length + 1) :
    (editRows b a row above).length = b.length + 1 := by
  induction a generalizing row above with
  | nil => exact size
  | cons c a ih => exact ih _ _ (by rw [List.length_cons, length_editRow c b above _ size])

/-- A row of the table is filled from left to right. -/
theorem editRowLoop_eq (passed : List Char) (before done zeros above : List ℕ) (left : ℕ)
    (columns : passed.length = done.length) (columns' : before.length = done.length)
    (size : above.length = b.length + 1) (room : zeros.length = b.length) :
    editRowLoop c (passed ++ b) (before ++ above) b.length (done.length + 1) (done ++ left :: zeros) =
      pure (done ++ left :: editRow c b above left) := by
  induction b generalizing passed before done zeros above left with
  | nil =>
    obtain rfl := List.eq_nil_of_length_eq_zero room
    simp [editRowLoop, editRow]
  | cons d b ih =>
    obtain ⟨diagonal, up, previous, rfl⟩ : ∃ diagonal up previous, above = diagonal :: up :: previous := by
      match above, size with
      | diagonal :: up :: previous, _ => exact ⟨diagonal, up, previous, rfl⟩
    obtain ⟨blank, zeros, rfl⟩ : ∃ blank more, zeros = blank :: more := by
      match zeros, room with
      | blank :: more, _ => exact ⟨blank, more, rfl⟩
    have char : (passed ++ d :: b)[done.length + 1 - 1]? = some d := by
      simp [← columns]
    have upper : (before ++ diagonal :: up :: previous)[done.length + 1]? = some up := by
      simp [← columns']
    have corner : (before ++ diagonal :: up :: previous)[done.length + 1 - 1]? = some diagonal := by
      simp [← columns']
    have beside : (done ++ left :: blank :: zeros)[done.length + 1 - 1]? = some left := by simp
    have inside : done.length + 1 < (done ++ left :: blank :: zeros).length := by simp
    have written (cell : ℕ) : (done ++ left :: blank :: zeros).set (done.length + 1) cell =
        (done ++ [left]) ++ cell :: zeros := by simp
    have next := fun cell => ih (passed ++ [d]) (before ++ [diagonal]) (done ++ [left]) zeros (up :: previous) cell
      (by simp [columns]) (by simp [columns']) (by simpa using size) (by simpa using room)
    simp only [List.append_assoc, List.singleton_append, List.length_append, List.length_singleton] at next
    rw [List.length_cons, editRowLoop, char, upper, corner, beside]
    simp only [ofOption_some, pure_bind, if_pos inside, written, List.append_assoc, List.singleton_append]
    rw [next, editRow]

/-- The table is filled row by row, and its last row is the one of the distance. -/
theorem editTableLoop_eq (passed : List Char) (done : List (List ℕ)) (above : List ℕ)
    (rows : passed.length = done.length) (size : above.length = b.length + 1) :
    ∃ table : List (List ℕ), editTableLoop (passed ++ a) b a.length (done.length + 1)
        (done ++ above :: (List.range' (done.length + 1) a.length).map fun i => i :: List.replicate b.length 0) =
          pure table ∧
      table[done.length + a.length]? = some (editRows b a done.length above) := by
  induction a generalizing passed done above with
  | nil =>
    refine ⟨_, rfl, ?_⟩
    simp [editRows]
  | cons c a ih =>
    have char : (passed ++ c :: a)[done.length + 1 - 1]? = some c := by simp [← rows]
    have row := @editRowLoop_eq b c [] [] [] (List.replicate b.length 0) above (done.length + 1) rfl rfl size
      (List.length_replicate ..)
    obtain ⟨table, filled, last⟩ := ih (passed ++ [c]) (done ++ [above])
      ((done.length + 1) :: editRow c b above (done.length + 1)) (by simp [rows])
      (by rw [List.length_cons, length_editRow c b above _ size])
    refine ⟨table, ?_, ?_⟩
    · rw [List.length_cons, List.range'_succ, List.map_cons, editTableLoop, char]
      simp only [List.nil_append, List.length_nil, Nat.zero_add] at row
      simp [ofOption_some, row, ← filled]
    · rw [editRows, List.length_cons, ← Nat.add_assoc, Nat.add_right_comm]
      simpa using last

theorem editDistance_eq (first second : String) :
    editDistance first second = pure (CueShell.editDistance first second) := by
  have size : (List.range (second.toList.length + 1)).length = second.toList.length + 1 := List.length_range
  obtain ⟨table, filled, last⟩ := @editTableLoop_eq first.toList second.toList [] [] _ rfl size
  simp only [List.nil_append, List.length_nil, Nat.zero_add] at filled last
  have corner := List.getLast?_eq_getElem? (l := editRows second.toList first.toList 0 (List.range (second.length + 1)))
  rw [← String.length_toList, length_editRows 0 _ size, Nat.add_sub_cancel] at corner
  rw [editDistance, filled, pure_bind, last, ofOption_some, pure_bind, CueShell.editDistance, ← String.length_toList,
    corner]
  have inside : second.toList.length <
      (editRows second.toList first.toList 0 (List.range (second.toList.length + 1))).length := by
    rw [length_editRows 0 _ size]
    exact Nat.lt_succ_self _
  rw [List.getElem?_eq_getElem inside]
  rfl

theorem nearCommands_eq (name : String) (first : List Char) (specs : List CommandSpec) :
    nearCommands name first specs = pure ((specs.filter fun spec =>
      first.isPrefixOf spec.name.toList || CueShell.editDistance name spec.name ≤ 2).map CommandSpec.name) := by
  induction specs with
  | nil => rfl
  | cons spec specs ih =>
    rw [nearCommands, editDistance_eq, pure_bind, ih, pure_bind, List.filter_cons]
    split_ifs <;> rfl

end Distance

/-- The name of a command is sliced behind its first character. -/
theorem commandSuggestions_eq {name : String} (ascii : ∀ c ∈ name.toList, c.toNat < 128) :
    commandSuggestions name = pure (CueShell.commandSuggestions name) := by
  have first : (strSlice name.toList 0 (min 1 (Text.byteLength name.toList)) : Attempt ParseError (List Char)) =
      pure (name.toList.take 1) := by
    cases shape : name.toList with
    | nil => rfl
    | cons c rest =>
      have small := ascii c (by simp [shape])
      have unit := utf8Size_of_lt small
      have cut := @strSlice_append ParseError [] [c] rest
      rw [Text.byteLength_cons, unit, min_eq_left (Nat.le_add_right ..)]
      rwa [Text.byteLength_nil, Text.byteLength_cons, Text.byteLength_nil, unit] at cut
  rw [commandSuggestions, first, pure_bind, nearCommands_eq, CueShell.commandSuggestions]

theorem commandSpecOrError_matches {name : String} (p : IndexParser) (ascii : ∀ c ∈ name.toList, c.toNat < 128) :
    Matches Eq (p.commandSpecOrError name) (p.view.commandSpecOrError name) := by
  rw [commandSpecOrError, Parser.commandSpecOrError]
  cases commandSpec name with
  | some spec => exact .ok rfl
  | none =>
    dsimp only
    rw [commandSuggestions_eq ascii, pure_bind]
    exact fail_matches ..

theorem parseCommand_eq (p : Parser) (name : String) (spanStart : ℕ) :
    p.parseCommand name spanStart = (p.advance.commandSpecOrError name >>= fun spec =>
      p.advance.parseOptionalParams name spec >>= fun (modeParams, p) =>
      p.parseArgumentForCommand name spec >>= fun (argument, p) =>
      .ok (.command name modeParams argument ⟨spanStart, p.peekSpan.start⟩, p)) := by
  rw [Parser.parseCommand]
  congr 1
  funext spec
  rw [Parser.parseOptionalParams]
  split_ifs <;> rfl

theorem parseOptionalParams_matches (p : IndexParser) (name : String) (spec : CommandSpec) :
    Matches (SameValue p) (p.parseOptionalParams name spec) (p.view.parseOptionalParams name spec) := by
  rw [parseOptionalParams, Parser.parseOptionalParams, peek_view]
  split_ifs with opens accepts
  · obtain ⟨spanned, -, -, advanced, inside⟩ := advance_of_peek (p := p) (by simp [opens])
    rw [advanced, pure_bind, ← view_advance, length_view]
    exact weaken (leadsTo_next p) (parseModeParams_matches name [] (by dsimp only [rounds]; omega))
  · exact fail_matches ..
  · exact .ok ⟨rfl, .refl p⟩

theorem parseCommand_matches (laid : p.Laid) {name : String} (token : p.peek = .command name) (spanStart : ℕ) :
    Matches (SameValue p) (p.parseCommand spanStart) (p.view.parseCommand name spanStart) := by
  obtain ⟨spanned, here, same, advanced, inside⟩ := advance_of_peek (p := p) (by simp [token])
  have member : spanned ∈ p.tokens := List.mem_of_getElem? here
  have ascii := laid.names spanned member name (same.trans token)
  have next := leadsTo_next p
  rw [parseCommand, advanced, pure_bind, parseCommand_eq, ← view_advance]
  dsimp only
  rw [same, token]
  refine weaken next ((commandSpecOrError_matches _ ascii).bind ?_)
  rintro spec _ rfl
  refine bind_matches (parseOptionalParams_matches ..) fun modeParams p' leads => ?_
  refine bind_matches (weaken leads (parseArgumentForCommand_matches (laid.leadsTo (next.trans leads)) ..))
    fun argument p'' leads' => ?_
  dsimp only
  rw [peekSpan_view]
  exact .ok ⟨rfl, leads'⟩

theorem parseStatement_matches (laid : p.Laid) :
    Matches (SameValue p) p.parseStatement p.view.parseStatement := by
  have bare : Matches (SameValue p)
      (p.parseChain >>= fun read =>
        pure (Statement.bareInput (.chain read.1) ⟨p.peekSpan.start, read.2.peekSpan.stop⟩, read.2))
      (p.view.parseChain >>= fun read =>
        .ok (Statement.bareInput (.chain read.1) ⟨p.peekSpan.start, read.2.peekSpan.stop⟩, read.2)) := by
    refine bind_matches (parseChain_matches p) fun chain p' leads => ?_
    dsimp only
    rw [peekSpan_view]
    exact .ok ⟨rfl, leads⟩
  rw [parseStatement, Parser.parseStatement, peek_view, peekSpan_view]
  cases token : p.peek
  case command name => exact parseCommand_matches laid token _
  case eof => exact .ok ⟨rfl, .refl p⟩
  all_goals exact bare

/-- The statement at a position is read alike by both parsers. -/
theorem parseSingleStatement_matches (laid : p.Laid) :
    p.parseSingleStatement = ofExcept p.view.parseSingleStatement := by
  rw [← matches_eq_iff]
  refine (parseStatement_matches laid).bind ?_
  rintro ⟨statement, p'⟩ _ ⟨rfl, -⟩
  dsimp only
  rw [atEnd_view, peek_view]
  split_ifs
  · exact .ok rfl
  · exact fail_matches ..

end Commands

end IndexParser

end CueShell
