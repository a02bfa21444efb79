import CueShell.Model.Parser.Resolver
import CueShell.Proofs.ChainStatements
import CueShell.Proofs.ChainTokens
import CueShell.Proofs.MovedStatements
import CueShell.Proofs.PlainLines
import CueShell.Soundness.ChainSentences

/-! # Mode injection

Bare input is resolved like the same input behind the default command of the mode. The command stands in
front of the first statement. A first statement of white space that the tokenizer takes for words is
dropped from bare input, but not from the input with the command: then there are two statements.
-/

namespace CueShell

/-- The default command of a mode. -/
def Mode.defaultCommand : Mode → String
  | .job => "run"
  | .cron => "cron"

/-- The input behind the default command. -/
def Mode.injected (mode : Mode) (input : String) : String := ":" ++ mode.defaultCommand ++ " " ++ input

section Tokens

open Tokenizer

variable {input : String} {t : Tokenizer} {tokens : List Spanned} {lead rest : List Char}

def withoutBlanks (tokens : List Spanned) : List Spanned := tokens.filter fun spanned => !spanned.token.isWhitespace

theorem nextToken_leading {c : Char} (shape : t.rest = c :: rest) (blank : isBlank c = true) :
    t.nextToken = .ok (t.emit (.whitespace (String.ofList (t.rest.takeWhile isBlank))) (t.rest.takeWhile isBlank)
      (t.rest.dropWhile isBlank) t.lastSignificant t.inModeParams) := by
  rcases (Bool.or_eq_true _ _).mp blank with is | is
  · obtain rfl := beq_iff_eq.mp is
    rw [nextToken, shape]
    rfl
  · obtain rfl := beq_iff_eq.mp is
    rw [nextToken, shape]
    rfl

/-- Blanks in front of the text do not count. -/
theorem tokenizeLoop_leading {fuel : ℕ} (blank : ∀ c ∈ lead, isBlank c = true)
    (dark : ∀ c ∈ rest.head?, isBlank c = false) (shape : t.rest = lead ++ rest) (enough : t.rest.length < fuel) :
    ∃ fuel' t', rest.length < fuel' ∧ t'.rest = rest ∧ t'.pos = t.pos + Text.byteLength lead ∧
      t'.before = lead.getLast?.or t.before ∧ t'.lastSignificant = t.lastSignificant ∧
      t'.inModeParams = t.inModeParams ∧
      (tokenizeLoop fuel t).map withoutBlanks = (tokenizeLoop fuel' t').map withoutBlanks := by
  cases lead with
  | nil =>
    rw [List.nil_append] at shape
    rw [shape] at enough
    exact ⟨fuel, t, enough, shape, rfl, rfl, rfl, rfl, rfl⟩
  | cons c lead =>
    obtain ⟨fuel, rfl⟩ : ∃ n, fuel = n + 1 := ⟨fuel - 1, by omega⟩
    have ends : rest.takeWhile isBlank = [] ∧ rest.dropWhile isBlank = rest := by
      cases rest with
      | nil => simp
      | cons d rest => simp [dark d (by simp)]
    have taken : t.rest.takeWhile isBlank = c :: lead := by
      rw [shape, List.takeWhile_append_of_pos blank, ends.1, List.append_nil]
    have dropped : t.rest.dropWhile isBlank = rest := by
      rw [shape, List.dropWhile_append_of_pos blank, ends.2]
    have next := nextToken_leading (t := t) shape (blank c (by simp))
    rw [taken, dropped] at next
    refine ⟨fuel, (t.emit (.whitespace (String.ofList (c :: lead))) (c :: lead) rest t.lastSignificant
      t.inModeParams).2, ?_, rfl, rfl, rfl, rfl, rfl, ?_⟩
    · rw [shape] at enough
      simp only [List.length_append, List.length_cons] at enough
      omega
    · rw [tokenizeLoop, next, Parser.ok_bind]
      dsimp only
      rw [if_neg (by simp [Tokenizer.emit])]
      cases tokenizeLoop fuel _ with
      | error e => rfl
      | ok tokens => simp [Except.map, withoutBlanks, Tokenizer.emit, Token.isWhitespace, bind, Except.bind]

theorem tokenizeForParser_eq_ok : tokenizeForParser input = .ok tokens ↔
    (tokenize input).map withoutBlanks = .ok tokens := by
  rw [tokenizeForParser]
  cases tokenize input with
  | error e => simp [Except.map]
  | ok tokens => simp [Except.map, withoutBlanks]

/-- What stands in front of the input. -/
def Mode.front (mode : Mode) : List Char := ':' :: (mode.defaultCommand.toList ++ [' '])

theorem Mode.injected_toList (mode : Mode) (input : String) :
    (mode.injected input).toList = mode.front ++ input.toList := by
  simp [Mode.injected, Mode.front, String.toList_append]

theorem Mode.commandName (mode : Mode) : CommandName mode.defaultCommand := by
  cases mode <;> exact ⟨by decide, List.all_iff_forall_prop.mp (by decide)⟩

theorem Mode.byteLength_front (mode : Mode) :
    Text.byteLength mode.front = 1 + Text.byteLength mode.defaultCommand.toList + 1 := by
  rw [Mode.front, Text.byteLength_cons, Text.byteLength_append]
  have colon : Char.utf8Size ':' = 1 := rfl
  have blank : Text.byteLength [' '] = 1 := rfl
  omega

/-- Behind the command stand the tokens of the bare input. -/
theorem tokenizeForParser_injected (mode : Mode) {c : Char} (split : input.toList = lead ++ c :: rest)
    (blank : ∀ c ∈ lead, isBlank c = true) (dark : isBlank c = false) (colon : c ≠ ':') (paren : c ≠ '(')
    (found : tokenizeForParser input = .ok tokens) :
    tokenizeForParser (mode.injected input) =
      .ok (commandToken mode.defaultCommand :: tokens.map (Spanned.moved (Text.byteLength mode.front))) := by
  rw [tokenizeForParser_eq_ok, tokenize] at found ⊢
  have dark' : ∀ d ∈ (c :: rest).head?, isBlank d = false := by simpa using dark
  obtain ⟨fuel, t, enough, tRest, tPos, tBefore, tLast, tMode, same⟩ :=
    @tokenizeLoop_leading (Tokenizer.new input) lead (c :: rest) (input.length + 1) blank dark' split
      (by simp [Tokenizer.new, String.length_toList])
  have start : Tokenizer.new (mode.injected input) =
      ⟨':' :: (mode.defaultCommand.toList ++ ' ' :: input.toList), none, 0, none, false⟩ := by
    rw [Tokenizer.new, mode.injected_toList, Mode.front]
    simp
  have length : (mode.injected input).length = mode.defaultCommand.toList.length + 2 + input.toList.length := by
    rw [← String.length_toList, mode.injected_toList, Mode.front]
    simp
    omega
  have shape : (behindCommand mode.defaultCommand (' ' :: input.toList)).rest = (' ' :: lead) ++ c :: rest := by
    rw [behindCommand, split, List.cons_append]
  have behind : (behindCommand mode.defaultCommand (' ' :: input.toList)).rest.length <
      (mode.injected input).length := by
    rw [length, behindCommand, List.length_cons]
    omega
  obtain ⟨fuel', u, enough', uRest, uPos, uBefore, uLast, uMode, same'⟩ :=
    @tokenizeLoop_leading (behindCommand mode.defaultCommand (' ' :: input.toList)) (' ' :: lead) (c :: rest)
      (mode.injected input).length (List.forall_mem_cons.mpr ⟨rfl, blank⟩) dark' shape behind
  have beside : Beside (Text.byteLength mode.front) t u := by
    refine ⟨uRest.trans tRest.symm, ?_, by rw [uMode, tMode]; rfl, ?_⟩
    · rw [uPos, tPos, mode.byteLength_front, behindCommand, Tokenizer.new, Text.byteLength_cons]
      have size : Char.utf8Size ' ' = 1 := rfl
      dsimp only
      omega
    · rw [uBefore, tBefore, behindCommand, Tokenizer.new]
      cases final : lead.getLast? with
      | none =>
        rw [List.getLast?_eq_none_iff.mp final]
        rfl
      | some d =>
        rw [List.getLast?_cons, final]
        rfl
  have agree := beside.tokenizeLoop (.inr ⟨c, rest, tRest, dark, colon, paren⟩) (tRest ▸ enough) (tRest ▸ enough')
  have read : (tokenizeLoop ((mode.injected input).length + 1) (Tokenizer.new (mode.injected input))).map
      withoutBlanks = ((tokenizeLoop fuel' u).map withoutBlanks).map (commandToken mode.defaultCommand :: ·) := by
    rw [← same', start, tokenizeLoop, nextToken_command mode.commandName (by simp [Spaced]), Parser.ok_bind]
    dsimp only
    rw [if_neg (by simp [commandToken])]
    cases tokenizeLoop (mode.injected input).length _ with
    | error e => rfl
    | ok tokens => rfl
  rw [read]
  rw [same] at found
  rcases agree.elim with ⟨e, e', left, right⟩ | ⟨all, all', left, right, rfl⟩
  · rw [left] at found
    cases found
  · rw [left] at found
    rw [right]
    obtain rfl : withoutBlanks all = tokens := Except.ok.inj found
    simp only [Except.map, withoutBlanks, List.filter_map]
    rfl

/-- A character that is neither a blank nor part of a line end starts a token of a statement. -/
theorem nextToken_content {t' : Tokenizer} {spanned : Spanned} {c : Char} (shape : t.rest = c :: rest)
    (dark : isBlank c = false) (feed : c ≠ '\n') (crlf : c = '\r' → rest.head? ≠ some '\n')
    (next : t.nextToken = .ok (spanned, t')) :
    spanned.token.isWhitespace = false ∧ spanned.token ≠ .newline ∧ spanned.token ≠ .eof := by
  rcases nextToken_emits next with ⟨none, -⟩ | ⟨token, text, after, last, flag, lexeme, emitted⟩
  · exact absurd (none.symm.trans shape) (by simp)
  simp only [Tokenizer.emit, Prod.mk.injEq] at emitted
  obtain ⟨rfl, -⟩ := emitted
  dsimp only
  cases lexeme with
  | lineFeed is => exact absurd (List.cons.inj (shape.symm.trans is)).1 feed
  | returnFeed is =>
    obtain ⟨rfl, rfl⟩ := List.cons.inj (shape.symm.trans is)
    exact absurd rfl (crlf rfl)
  | blanks is blank =>
    obtain ⟨rfl, -⟩ := List.cons.inj (shape.symm.trans is)
    exact absurd blank (by simp [dark])
  | operator visible is =>
    cases token <;> first | exact absurd rfl visible | exact ⟨rfl, by simp, by simp⟩
  | _ => exact ⟨rfl, by simp, by simp⟩

/-- The first token of the input and the tokens behind it. -/
structure FirstToken (pos : ℕ) (tokens : List Spanned) (first : Spanned) (others : List Spanned) : Prop where
  shape : tokens = first :: others
  content : first.token ≠ .newline ∧ first.token ≠ .eof
  start : first.span.start = pos
  stop : pos < first.span.stop
  behind : ∀ spanned ∈ others, pos < spanned.span.start ∧ spanned.span.start ≤ spanned.span.stop

theorem exists_firstToken {c : Char} (split : input.toList = lead ++ c :: rest)
    (blank : ∀ c ∈ lead, isBlank c = true) (dark : isBlank c = false) (feed : c ≠ '\n')
    (crlf : c = '\r' → rest.head? ≠ some '\n') (found : tokenizeForParser input = .ok tokens) :
    ∃ first others, FirstToken (Text.byteLength lead) tokens first others ∧
      (c = '(' → first.token = .groupOpen) := by
  rw [tokenizeForParser_eq_ok, tokenize] at found
  obtain ⟨fuel, t, enough, tRest, tPos, -, tLast, -, same⟩ :=
    @tokenizeLoop_leading (Tokenizer.new input) lead (c :: rest) (input.length + 1) blank (by simpa using dark) split
      (by simp [Tokenizer.new, String.length_toList])
  rw [same] at found
  cases all : tokenizeLoop fuel t with
  | error e =>
    rw [all] at found
    cases found
  | ok tokens' =>
    rw [all] at found
    obtain rfl : withoutBlanks tokens' = tokens := Except.ok.inj found
    obtain ⟨fuel, rfl⟩ : ∃ n, fuel = n + 1 := ⟨fuel - 1, by omega⟩
    obtain ⟨⟨spanned, t'⟩, next, -⟩ := Parser.bind_eq_ok.mp (show (t.nextToken >>= _) = _ from all)
    obtain ⟨visible, line, real⟩ := nextToken_content tRest dark feed crlf next
    obtain ⟨text, nonempty, splitText, -, span, moved⟩ := nextToken_piece_of_text next (by rw [tRest]; simp)
    obtain ⟨others, loop, rfl⟩ := tokenizeLoop_step next real all
    have size := byteLength_pos nonempty
    have pos : t.pos = Text.byteLength lead := by rw [tPos, Tokenizer.new, Nat.zero_add]
    have chained := tokenizeLoop_chained (t := t') (by
      have length := congrArg List.length splitText
      have positive := List.length_pos_of_ne_nil nonempty
      rw [tRest, List.length_append] at length
      omega) loop
    refine ⟨spanned, withoutBlanks others, ⟨?_, ⟨line, real⟩, ?_, ?_, ?_⟩, ?_⟩
    · simp [withoutBlanks, visible]
    · rw [span, pos]
    · rw [span, pos]
      exact Nat.lt_add_of_pos_right size
    · intro other member
      obtain ⟨start, ordered⟩ := chained.behind other (List.mem_of_mem_filter member)
      exact ⟨by omega, ordered⟩
    · rintro rfl
      rw [nextToken, tRest] at next
      have none : t.lastSignificant = none := tLast
      simp only [none, reduceCtorEq, if_false] at next
      cases next
      rfl

end Tokens

section Resolving

theorem agree_requireDuration (words : List String) (span span' : Span) (keyword suggestion : String) :
    Agree (· = ·) (requireDuration words span keyword suggestion)
      (requireDuration words span' keyword suggestion) := by
  rw [requireDuration, requireDuration]
  split
  · exact .ok rfl
  · exact .error

theorem agree_requireWord (words : List String) (index : ℕ) (span span' : Span) (message suggestion : String) :
    Agree (· = ·) (requireWord words index span message suggestion)
      (requireWord words index span' message suggestion) := by
  rw [requireWord, requireWord]
  split
  · exact .ok rfl
  · exact .error

theorem agree_parseDoSchedule (words : List String) (span span' : Span) :
    Agree (· = ·) (parseDoSchedule words span) (parseDoSchedule words span') := by
  rw [parseDoSchedule, parseDoSchedule]
  split
  · split
    · exact .error
    · split
      · exact .ok rfl
      · exact .error
  · exact .error

/-- The position of a schedule shows in errors only. -/
theorem agree_parseScheduleWords (words : List String) (span span' : Span) :
    Agree (· = ·) (parseScheduleWords words span) (parseScheduleWords words span') := by
  rw [parseScheduleWords, parseScheduleWords]
  split
  · exact .error
  split
  · exact (agree_requireDuration ..).bind fun _ _ same => .ok (by rw [same])
  split
  · refine (agree_requireWord ..).bind fun time _ same => ?_
    subst same
    split
    · exact (agree_requireWord ..).bind fun _ _ same => .ok (by rw [same])
    · exact .ok rfl
  split
  · refine (agree_requireWord ..).bind fun days _ same => ?_
    subst same
    split
    · exact (agree_requireWord ..).bind fun _ _ same => .ok (by rw [same])
    · exact .error
  split
  · exact (agree_requireDuration ..).bind fun _ _ same => .ok (by rw [same])
  split
  · split
    · exact .error
    · exact .ok rfl
  split
  · exact .ok rfl
  · exact agree_parseDoSchedule words span span'

theorem agree_resolveCron (chain : ChainNode) (params : ModeParams) (span span' : Span) :
    Agree (· = ·) (resolveCron chain params span) (resolveCron chain params span') := by
  have split : Agree (· = ·) (splitBareCronChain chain span) (splitBareCronChain chain span') := by
    rw [splitBareCronChain, splitBareCronChain]
    split
    · exact .error
    · refine Agree.bind (R := (· = ·)) ?_ ?_
      · rw [parseBareCronSchedule, parseBareCronSchedule]
        exact (agree_parseScheduleWords ..).bind fun _ _ same => .ok (by rw [same])
      · rintro ⟨schedule, consumed⟩ - rfl
        dsimp only
        split
        · exact .error
        · exact .ok rfl
  rw [resolveCron, resolveCron]
  refine split.bind ?_
  rintro ⟨schedule, body⟩ - rfl
  dsimp only
  split
  · exact .ok rfl
  · exact .error

/-- The default command is resolved like the bare chain. -/
theorem resolve_defaultCommand {mode : Mode} (other : Mode) {node : ChainNode} {span span' : Span}
    {command : SingleCommand} (request : Resolver.isModeHelpRequest (.chain node) = false)
    (resolved : Resolver.resolveBare (.chain node) mode span = .ok command) :
    Resolver.resolve other (.single (.command mode.defaultCommand [] (.chain node) span')) =
      some (.ok (.single command)) := by
  rw [Resolver.resolveBare.eq_def, request] at resolved
  cases mode with
  | job =>
    obtain rfl := Except.ok.inj (show Except.ok _ = Except.ok command from resolved)
    rfl
  | cron =>
    have same := agree_resolveCron node {} span span'
    rw [show resolveCron node {} span = .ok command from resolved] at same
    cases result : resolveCron node {} span' with
    | error e =>
      rw [result] at same
      cases same
    | ok found =>
      rw [result] at same
      obtain rfl : command = found := by cases same with | ok same => exact same
      change (some (resolveCron node {} span')).map _ = _
      rw [result]
      rfl

end Resolving

section Injection

variable {input : String} {mode : Mode}

/-- Bare input of one statement that is accepted and does not ask for help. -/
def BareAccepted (mode : Mode) (input : String) : Prop :=
  ∃ argument span command, Parser.parse input = .ok (.single (.bareInput argument span)) ∧
    Resolver.isModeHelpRequest argument = false ∧ parseCommand input mode = some (.ok command)

/-- The first character that is not a blank is neither a colon nor a line break. -/
def StartsStatement (input : String) : Prop :=
  (input.toList.dropWhile isBlank).head? ≠ some ':' ∧ (input.toList.dropWhile isBlank).head? ≠ some '\n' ∧
    ¬ ['\r', '\n'] <+: input.toList.dropWhile isBlank

instance (input : String) : Decidable (StartsStatement input) := inferInstanceAs (Decidable (_ ∧ _ ∧ ¬ _))

/-- The first statement of the input starts with its first character that is not a blank: no statement of
white space in front of it is dropped. -/
def KeepsFirst (input : String) : Prop :=
  ∀ tokens, tokenizeForParser input = .ok tokens →
    ∀ chunk ∈ (splitTopLevelStatements tokens input.toList).head?,
      chunk.span.start = Text.byteLength (input.toList.takeWhile isBlank)

theorem parseSingleStatement_bare {tokens : List Spanned} {node : ChainNode} {span : Span} {text : List Char}
    (content : ∀ spanned ∈ tokens, spanned.token ≠ .eof)
    (parsed : (⟨tokens, text⟩ : Parser).parseSingleStatement = .ok (.bareInput (.chain node) span)) :
    Spells tokens node.pieces ∧ node.Parsed := by
  rw [Parser.parseSingleStatement] at parsed
  obtain ⟨⟨statement, p⟩, inner, parsed⟩ := Parser.bind_eq_ok.mp parsed
  dsimp only at parsed
  split_ifs at parsed with ended
  · obtain rfl := Except.ok.inj parsed
    refine Parser.ReadsChain.spells (p := ⟨tokens, text⟩) ⟨p, ?_, ended⟩ content
    rw [Parser.parseStatement] at inner
    dsimp only at inner
    split at inner
    · obtain ⟨spec, params, p₁, argument, span', same, -⟩ := Parser.parseCommand_ok inner
      cases same
    · cases inner
    · obtain ⟨⟨chain, p'⟩, chained, done⟩ := Parser.bind_eq_ok.mp inner
      obtain ⟨same, rfl⟩ := Prod.mk.inj (Except.ok.inj done)
      cases same
      exact chained
  · cases parsed

theorem resolveBare_chain {argument : Argument} {span : Span} {command : SingleCommand}
    (request : Resolver.isModeHelpRequest argument = false)
    (resolved : Resolver.resolveBare argument mode span = .ok command) : ∃ node, argument = .chain node := by
  rw [Resolver.resolveBare.eq_def, request] at resolved
  cases argument with
  | chain node => exact ⟨node, rfl⟩
  | _ => cases mode <;> cases resolved

/-- Accepted bare input is one statement that spells a chain. -/
theorem BareAccepted.spells (accepted : BareAccepted mode input) :
    ∃ tokens chunk node span command, tokenizeForParser input = .ok tokens ∧
      splitTopLevelStatements tokens input.toList = [chunk] ∧ Spells chunk.tokens node.pieces ∧ node.Parsed ∧
      Resolver.isModeHelpRequest (.chain node) = false ∧
      Resolver.resolveBare (.chain node) mode span = .ok command ∧
      parseCommand input mode = some (.ok (.single command)) := by
  obtain ⟨argument, span, command, parsed, request, resolved⟩ := accepted
  have resolve : parseCommand input mode = (some (Resolver.resolveBare argument mode span)).map
      fun command => command.map .single := by
    rw [parseCommand, parsed]
    rfl
  rw [resolved] at resolve
  cases bare : Resolver.resolveBare argument mode span with
  | error e =>
    rw [bare] at resolve
    cases resolve
  | ok single =>
    obtain ⟨node, rfl⟩ := resolveBare_chain request bare
    rw [bare] at resolve
    obtain rfl : command = .single single := Except.ok.inj (Option.some.inj resolve)
    rw [Parser.parse] at parsed
    obtain ⟨tokens, tokenized, parsed⟩ := Parser.bind_eq_ok.mp parsed
    rw [Parser.parseTokens] at parsed
    split at parsed
    next => cases parsed
    next chunk one =>
      obtain ⟨statement, chunkParsed, same⟩ := Parser.bind_eq_ok.mp parsed
      obtain rfl : statement = _ := Ast.single.inj (Except.ok.inj same)
      have content : ∀ spanned ∈ chunk.tokens, spanned.token ≠ .eof := fun spanned inside =>
        (mem_content_of_chunk (one ▸ List.mem_singleton_self chunk) spanned inside).2
      obtain ⟨spells, good⟩ := parseSingleStatement_bare content chunkParsed
      exact ⟨tokens, chunk, node, span, single, tokenized, one, spells, good, request, bare, resolved⟩
    next =>
      obtain ⟨items, -, same⟩ := Parser.bind_eq_ok.mp parsed
      cases same

theorem Mode.takesChain (mode : Mode) : TakesChain mode.defaultCommand := by
  cases mode with
  | job => exact .inl (by decide)
  | cron => exact .inr (by decide)

theorem Spells.moved {tokens : List Spanned} {pieces : List Piece} (spells : Spells tokens pieces) (offset : ℕ) :
    Spells (tokens.map (Spanned.moved offset)) pieces := by
  rw [Spells, List.map_map] at *
  exact spells

/-- Input with nothing but blanks has no statement. -/
theorem split_of_blank {tokens : List Spanned} (blank : input.toList.dropWhile isBlank = [])
    (tokenized : tokenizeForParser input = .ok tokens) : splitTopLevelStatements tokens input.toList = [] := by
  rw [tokenizeForParser_eq_ok, Tokenizer.tokenize] at tokenized
  obtain ⟨fuel, t, enough, tRest, -, -, -, -, same⟩ :=
    @tokenizeLoop_leading (Tokenizer.new input) input.toList [] (input.length + 1)
      (List.dropWhile_eq_nil_iff.mp blank) (by simp) (List.append_nil _).symm
      (by simp [Tokenizer.new, String.length_toList])
  obtain ⟨fuel, rfl⟩ : ∃ n, fuel = n + 1 := ⟨fuel - 1, by omega⟩
  rw [same, Tokenizer.tokenizeLoop, nextToken_nil tRest] at tokenized
  obtain rfl : [_] = tokens := Except.ok.inj tokenized
  rfl

/-- The first statement, and what becomes of it behind the command. -/
structure Injected (mode : Mode) (input : String) (tokens closing : List Spanned) (later : List ScriptChunk) :
    Prop where
  tokenized : tokenizeForParser (mode.injected input) =
    .ok (commandToken mode.defaultCommand :: tokens.map (Spanned.moved (Text.byteLength mode.front)))
  bare : splitTopLevelStatements tokens input.toList = pushScriptChunk input.toList [] closing ++ later
  first : ∃ chunk, splitTopLevelStatements
      (commandToken mode.defaultCommand :: tokens.map (Spanned.moved (Text.byteLength mode.front)))
      (mode.injected input).toList = chunk :: later.map (ScriptChunk.moved (Text.byteLength mode.front)) ∧
    chunk.tokens =
      commandToken mode.defaultCommand :: closing.map (Spanned.moved (Text.byteLength mode.front))
  start : ∃ first, closing.head? = some first ∧
    first.span.start = Text.byteLength (input.toList.takeWhile isBlank)
  behind : ∀ chunk ∈ later, ∀ spanned ∈ chunk.tokens,
    Text.byteLength (input.toList.takeWhile isBlank) < spanned.span.start

theorem exists_injected (mode : Mode) {tokens : List Spanned} {chunk : ScriptChunk} {node : ChainNode}
    (starts : StartsStatement input) (tokenized : tokenizeForParser input = .ok tokens)
    (one : splitTopLevelStatements tokens input.toList = [chunk]) (spells : Spells chunk.tokens node.pieces) :
    ∃ closing later, Injected mode input tokens closing later := by
  obtain ⟨notColon, notFeed, notReturn⟩ := starts
  have full : input.toList.dropWhile isBlank ≠ [] := by
    intro blank
    rw [split_of_blank blank tokenized] at one
    cases one
  obtain ⟨c, rest, shape⟩ := List.exists_cons_of_ne_nil full
  have split : input.toList = input.toList.takeWhile isBlank ++ c :: rest := by
    rw [← shape, List.takeWhile_append_dropWhile]
  have blank : ∀ c ∈ input.toList.takeWhile isBlank, isBlank c = true := fun _ member => List.mem_takeWhile_imp member
  have dark : isBlank c = false := by
    have head := List.head?_dropWhile_not isBlank input.toList
    rw [shape] at head
    simpa using head
  rw [shape] at notColon notFeed notReturn
  obtain ⟨first, others, firstToken, group⟩ := exists_firstToken split blank dark (fun is => notFeed (by rw [is]; rfl))
    (fun is next => by
      obtain ⟨more, rfl⟩ := List.head?_eq_some_iff.mp next
      exact notReturn ⟨more, by rw [is]; rfl⟩) tokenized
  obtain rfl := firstToken.shape
  rcases first.token.splitStep with ⟨final, -⟩ | ⟨-, change, step⟩ | ⟨newline, -⟩
  · exact absurd final firstToken.content.2
  swap
  · exact absurd newline firstToken.content.1
  obtain ⟨closing, later, splits⟩ := exists_splits mode.front input.toList (commandToken mode.defaultCommand)
    (List.cons_ne_nil first []) (change 0) others
  have bare : splitTopLevelStatements (first :: others) input.toList =
      pushScriptChunk input.toList [] closing ++ later := (step _ _ _ _ _ _).trans splits.bare
  have head : closing.head? = some first := splits.head
  obtain ⟨last, isLast⟩ : ∃ last, closing.getLast? = some last := by
    cases closing with
    | nil => cases head
    | cons _ _ => exact ⟨_, List.getLast?_eq_some_getLast (List.cons_ne_nil _ _)⟩
  have stop : Text.byteLength (input.toList.takeWhile isBlank) < last.span.stop := by
    have inside := splits.within.subset (List.mem_of_getLast? isLast)
    rcases List.mem_cons.mp inside with rfl | inside
    · exact firstToken.stop
    · obtain ⟨start, ordered⟩ := firstToken.behind last (List.mem_of_mem_filter inside)
      omega
  have paren : c ≠ '(' := by
    intro is
    have full : Text.isWhiteSpace c = false := is ▸ rfl
    have kept : pushScriptChunk (input.toList.takeWhile isBlank ++ c :: rest) [] closing ≠ [] :=
      pushScriptChunk_kept head isLast firstToken.start stop full
    rw [← split] at kept
    rcases pushScriptChunk_cases input.toList closing with none | ⟨_, _, source, -, -, pushed⟩
    · exact kept none
    · rw [one, pushed] at bare
      obtain ⟨rfl, -⟩ := List.cons.inj bare
      have member : Piece.ofToken first.token ∈ closing.map fun spanned => Piece.ofToken spanned.token :=
        List.mem_map_of_mem (List.mem_of_head? head)
      rw [show _ = _ from spells, group is] at member
      simp [Piece.ofToken] at member
  have tokenized' := tokenizeForParser_injected mode split blank dark (fun is => notColon (by rw [is]; rfl)) paren
    tokenized
  refine ⟨closing, later, tokenized', bare, ?_, ⟨first, head, firstToken.start⟩, ?_⟩
  · have isLast' : (commandToken mode.defaultCommand :: closing.map (Spanned.moved (Text.byteLength mode.front))).getLast? =
        some (last.moved (Text.byteLength mode.front)) := by
      rw [List.getLast?_cons, List.getLast?_map, isLast]
      rfl
    have positive : 0 < (last.moved (Text.byteLength mode.front)).span.stop := by
      change 0 < last.span.stop + Text.byteLength mode.front
      omega
    obtain ⟨chunk', pushed, chunkTokens⟩ := pushScriptChunk_visible ':'
      (mode.defaultCommand.toList ++ ' ' :: input.toList) (List.head?_cons ..) isLast' rfl positive (by decide)
    have front : (mode.injected input).toList = ':' :: (mode.defaultCommand.toList ++ ' ' :: input.toList) := by
      rw [mode.injected_toList, Mode.front]
      simp
    refine ⟨chunk', ?_, chunkTokens⟩
    have injected := splits.injected
    rw [← mode.injected_toList, front, pushed] at injected
    rw [front]
    exact (step _ _ _ _ _ _).trans injected
  · intro chunk' member spanned inside
    exact (firstToken.behind spanned (splits.behind chunk' member spanned inside)).1

/-- Two statements are a script, and never a single command. -/
theorem parseCommand_twice {text : String} {tokens : List Spanned} {first second : ScriptChunk}
    {more : List ScriptChunk} (tokenized : tokenizeForParser text = .ok tokens)
    (split : splitTopLevelStatements tokens text.toList = first :: second :: more) (other : Mode)
    (command : SingleCommand) : parseCommand text other ≠ some (.ok (.single command)) := by
  rw [parseCommand, Parser.parse, tokenized, Parser.ok_bind, Parser.parseTokens, split]
  dsimp only
  cases (first :: second :: more).mapM (parseChunk text.toList) with
  | error e =>
    intro same
    cases same
  | ok items =>
    rw [Parser.ok_bind]
    dsimp only
    rw [Resolver.resolve]
    intro same
    obtain ⟨result, -, same⟩ := Option.map_eq_some_iff.mp same
    cases result <;> cases same

/-- Bare input is resolved like the input behind the default command of its mode, in every mode, exactly if
no statement of white space in front of it is dropped. -/
theorem injected_iff (mode : Mode) (input : String) (accepted : BareAccepted mode input)
    (starts : StartsStatement input) :
    (∀ other, parseCommand (mode.injected input) other = parseCommand input mode) ↔ KeepsFirst input := by
  obtain ⟨tokens, chunk, node, span, command, tokenized, one, spells, parsed, request, resolved, bare⟩ :=
    accepted.spells
  obtain ⟨closing, later, injected⟩ := exists_injected mode starts tokenized one spells
  obtain ⟨first, head, start⟩ := injected.start
  obtain ⟨chunk', split, chunkTokens⟩ := injected.first
  have pieces := injected.bare
  rw [one] at pieces
  have keeps : KeepsFirst input ↔ chunk.span.start = Text.byteLength (input.toList.takeWhile isBlank) := by
    constructor
    · intro keeps
      exact keeps tokens tokenized chunk (by rw [one]; rfl)
    · intro same others found other member
      obtain rfl : tokens = others := Except.ok.inj (tokenized.symm.trans found)
      rw [one] at member
      rwa [← Option.some.inj member]
  rw [keeps]
  rcases pushScriptChunk_cases input.toList closing with none | ⟨first', last, source, head', -, pushed⟩
  · -- The first statement is dropped, and the command in front keeps it.
    rw [none, List.nil_append] at pieces
    obtain rfl := pieces
    constructor
    · intro same
      exact absurd ((same mode).trans bare) (parseCommand_twice injected.tokenized split mode command)
    · intro same
      have member : chunk ∈ splitTopLevelStatements tokens input.toList := by rw [one]; simp
      rcases splitLoop_start member with none | ⟨begin, first, started⟩
      · exact absurd none List.not_mem_nil
      · have behind := injected.behind chunk (by simp) begin (List.mem_of_head? first)
        omega
  · rw [pushed] at pieces
    obtain ⟨rfl, none⟩ := List.cons.inj pieces
    obtain rfl := none
    obtain rfl : first' = first := Option.some.inj (head'.symm.trans head)
    refine ⟨fun _ => start, fun _ other => ?_⟩
    obtain ⟨span', statement⟩ := parseSingleStatement_chain_of_spells mode.takesChain
      (commandToken mode.defaultCommand) (mode.injected input).toList rfl parsed
      (spells.moved (Text.byteLength mode.front)) (by
        intro empty
        rw [List.map_eq_nil_iff] at empty
        dsimp only at empty
        rw [empty] at head
        cases head)
    rw [bare, parseCommand, Parser.parse, injected.tokenized, Parser.ok_bind, Parser.parseTokens, split,
      List.map_nil]
    dsimp only
    rw [chunkTokens, statement, Parser.ok_bind]
    exact resolve_defaultCommand other request resolved

theorem bareAccepted_list : BareAccepted .job "ls -l" :=
  ⟨_, _, _, rfl, rfl, rfl⟩

/-- An accepted line without white space in front of it. -/
theorem injected_list : BareAccepted .job "ls -l" ∧ StartsStatement "ls -l" ∧
    ((∀ other, parseCommand (Mode.job.injected "ls -l") other = parseCommand "ls -l" .job) ↔ KeepsFirst "ls -l") :=
  ⟨bareAccepted_list, by decide, injected_iff .job "ls -l" bareAccepted_list (by decide)⟩

def pageLine : String := "\x0c\na"

def spaceLine : String := "\u00a0\na"

theorem bareAccepted_pageLine : BareAccepted .job pageLine := ⟨_, _, _, rfl, rfl, rfl⟩

theorem bareAccepted_spaceLine : BareAccepted .job spaceLine := ⟨_, _, _, rfl, rfl, rfl⟩

theorem script_differs {text : String}
    (twice : ∃ items, parseCommand (Mode.job.injected text) .job = some (.ok (.script .job .inline items)))
    (once : ∃ command, parseCommand text .job = some (.ok (.single command))) :
    parseCommand (Mode.job.injected text) .job ≠ parseCommand text .job := by
  obtain ⟨items, twice⟩ := twice
  obtain ⟨command, once⟩ := once
  rw [twice, once]
  simp

/-- A form feed or a no-break space on a line of its own is dropped from bare input, and is the command to
run behind `:run`. -/
theorem injected_differs :
    (BareAccepted .job pageLine ∧ StartsStatement pageLine ∧
      parseCommand (Mode.job.injected pageLine) .job ≠ parseCommand pageLine .job) ∧
    BareAccepted .job spaceLine ∧ StartsStatement spaceLine ∧
      parseCommand (Mode.job.injected spaceLine) .job ≠ parseCommand spaceLine .job := by
  refine ⟨⟨bareAccepted_pageLine, by decide, ?_⟩, bareAccepted_spaceLine, by decide, ?_⟩
  · exact script_differs ⟨_, rfl⟩ ⟨_, rfl⟩
  · exact script_differs ⟨_, rfl⟩ ⟨_, rfl⟩

end Injection

end CueShell
