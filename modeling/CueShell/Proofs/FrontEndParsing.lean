import CueShell.Proofs.ChainStatements
import CueShell.Proofs.IndexParsing
import CueShell.Proofs.StatementChunks

/-! # The front end by positions does not panic

The tokens of an input lie between characters, one behind the other, so every statement can be sliced
from the input. The resolver drops no more words than there are, and gets from the parser the arguments
it relies on.
-/

namespace CueShell

open Attempt

section Layout

variable {input front text : List Char} {tokens : List Spanned} {pos : ℕ}

/-- Tokens between characters, in order, with command names below 128. -/
structure TokensLaid (input : List Char) (tokens : List Spanned) : Prop where
  bounds : ∀ spanned ∈ tokens, Text.IsBoundary input spanned.span.start ∧
    Text.IsBoundary input spanned.span.stop ∧ spanned.span.start ≤ spanned.span.stop
  order : tokens.Pairwise fun first later => first.span.stop ≤ later.span.start
  names : ∀ spanned ∈ tokens, ∀ name, spanned.token = .command name → ∀ c ∈ name.toList, c.toNat < 128

theorem TokensLaid.sublist {part : List Spanned} (laid : TokensLaid input tokens) (sub : part.Sublist tokens) :
    TokensLaid input part :=
  ⟨fun _ member => laid.bounds _ (sub.subset member), laid.order.sublist sub,
    fun _ member => laid.names _ (sub.subset member)⟩

/-- A statement can be parsed where its tokens are laid and real. -/
theorem TokensLaid.parser (laid : TokensLaid input tokens) (real : ∀ spanned ∈ tokens, spanned.token ≠ .eof) :
    (⟨tokens, pos, input⟩ : IndexParser).Laid :=
  ⟨real, laid.bounds, laid.order, laid.names⟩

theorem Chained.bounds (chained : Chained pos text tokens) (split : input = front ++ text)
    (here : pos = Text.byteLength front) :
    ∀ spanned ∈ tokens, Text.IsBoundary input spanned.span.start ∧
      Text.IsBoundary input spanned.span.stop ∧ spanned.span.start ≤ spanned.span.stop := by
  induction chained generalizing front with
  | nil =>
    rw [List.append_nil] at split
    subst split here
    simpa using Text.isBoundary_end
  | @cons pos token text rest tokens nonempty real chained ih =>
    have longer : input = (front ++ text) ++ rest := by rw [split, List.append_assoc]
    have size : Text.byteLength front + Text.byteLength text = Text.byteLength (front ++ text) :=
      (Text.byteLength_append ..).symm
    subst here
    refine List.forall_mem_cons.mpr ⟨⟨?_, ?_, Nat.le_add_right ..⟩, ih longer size⟩
    · rw [split]
      exact Text.isBoundary_append
    · dsimp only
      rw [size, longer]
      exact Text.isBoundary_append

theorem Chained.order (chained : Chained pos text tokens) :
    tokens.Pairwise fun first later => first.span.stop ≤ later.span.start := by
  induction chained with
  | nil => simp
  | cons nonempty real chained ih =>
    exact List.pairwise_cons.mpr ⟨fun spanned member => (chained.behind spanned member).1, ih⟩

section Names

open Tokenizer

variable {t : Tokenizer} {fuel : ℕ}

/-- The name of a command token has letters, digits and underscores only. -/
theorem tokenizeLoop_names (found : tokenizeLoop fuel t = .ok tokens) :
    ∀ spanned ∈ tokens, ∀ name, spanned.token = .command name → ∀ c ∈ name.toList, c.toNat < 128 := by
  induction fuel generalizing t tokens with
  | zero =>
    obtain rfl : [] = tokens := Except.ok.inj found
    simp
  | succ fuel ih =>
    rw [tokenizeLoop] at found
    obtain ⟨⟨spanned, t'⟩, next, found⟩ := Parser.bind_eq_ok.mp found
    have first : ∀ name, spanned.token = .command name → ∀ c ∈ name.toList, c.toNat < 128 := by
      intro name is
      rcases nextToken_emits next with ⟨none, emitted⟩ | ⟨token, text, rest, last, flag, lexeme, emitted⟩
      · rw [nextToken_nil none] at next
        obtain ⟨rfl, rfl⟩ := Prod.mk.inj (Except.ok.inj next)
        simp at is
      · simp only [emit, Prod.mk.injEq] at emitted
        obtain ⟨rfl, rfl⟩ := emitted
        obtain rfl : token = .command name := is
        cases lexeme with
        | command =>
          rw [String.toList_ofList]
          exact fun c inside => isIdentChar_ascii c (List.mem_takeWhile_imp inside)
        | operator visible => simp [Token.operatorText] at visible
    dsimp only at found
    split_ifs at found with ends
    · obtain rfl : [spanned] = tokens := Except.ok.inj found
      simpa using first
    · obtain ⟨others, loop, done⟩ := Parser.bind_eq_ok.mp found
      obtain rfl : spanned :: others = tokens := Except.ok.inj done
      exact List.forall_mem_cons.mpr ⟨first, ih loop⟩

end Names

theorem tokenize_laid {input : String} (found : Tokenizer.tokenize input = .ok tokens) :
    TokensLaid input.toList tokens := by
  have chained := tokenize_chained found
  exact ⟨chained.bounds (List.nil_append _).symm rfl, chained.order, tokenizeLoop_names found⟩

end Layout

namespace FrontEnd

section Statements

variable {input : List Char} {tokens current rest : List Spanned} {chunks : List ScriptChunk} {depth index : ℕ}

theorem tokenizeForParser_ends (input : String) :
    tokenizeForParser input = ofExcept (CueShell.tokenizeForParser input) := by
  rw [tokenizeForParser, tokenize_ends, CueShell.tokenizeForParser]
  cases Tokenizer.tokenize input <;> rfl

theorem pushScriptChunk_ends (laid : TokensLaid input current) (chunks : List ScriptChunk) :
    pushScriptChunk input chunks current = pure (CueShell.pushScriptChunk input chunks current) := by
  rw [pushScriptChunk, CueShell.pushScriptChunk]
  cases head : current.head? with
  | none => rfl
  | some first =>
    cases final : current.getLast? with
    | none => rfl
    | some last =>
      obtain ⟨start, -, -⟩ := laid.bounds first (List.mem_of_head? head)
      obtain ⟨-, stop, -⟩ := laid.bounds last (List.mem_of_getLast? final)
      have ordered := IndexParser.start_le_stop laid.order (fun _ member => (laid.bounds _ member).2.2) head final
      dsimp only
      rw [strSlice_of_boundaries ordered start stop, pure_bind]
      split_ifs <;> rfl

theorem shouldSplitOnNewline_ends {spanned : Spanned} (here : tokens.drop index = spanned :: rest) (depth : ℕ)
    (current : List Spanned) :
    shouldSplitOnNewline tokens index depth current =
      pure (CueShell.shouldSplitOnNewline rest depth current) := by
  have behind : tokensBehind tokens index = pure rest := by
    have inside : index + 1 ≤ tokens.length := by
      have length := congrArg List.length here
      rw [List.length_drop, List.length_cons] at length
      omega
    rw [tokensBehind, if_pos inside, ← List.drop_drop, here]
    rfl
  rw [shouldSplitOnNewline, CueShell.shouldSplitOnNewline, behind]
  split_ifs <;> rfl

theorem splitLoop_ends (laid : TokensLaid input tokens) (chunks : List ScriptChunk) (depth : ℕ)
    (here : tokens.drop index = rest) (part : (current ++ rest).Sublist tokens) :
    splitLoop tokens input chunks current depth index rest =
      pure (CueShell.splitLoop input chunks current depth rest) := by
  induction rest generalizing chunks current depth index with
  | nil =>
    rw [List.append_nil] at part
    exact pushScriptChunk_ends (laid.sublist part) chunks
  | cons spanned rest ih =>
    have next : tokens.drop (index + 1) = rest := by
      rw [← List.drop_drop, here]
      rfl
    have kept : (current ++ [spanned] ++ rest).Sublist tokens := by
      rwa [List.append_assoc, List.singleton_append]
    have own : current.Sublist tokens := (List.sublist_append_left ..).trans part
    have left : (current ++ rest).Sublist tokens :=
      ((List.sublist_cons_self ..).append_left current).trans part
    rw [splitLoop, CueShell.splitLoop]
    cases spanned.token
    case eof => exact pushScriptChunk_ends (laid.sublist own) chunks
    case newline =>
      dsimp only
      rw [shouldSplitOnNewline_ends here, pure_bind]
      split_ifs with split
      · rw [pushScriptChunk_ends (laid.sublist own), pure_bind]
        exact ih _ _ next ((List.sublist_append_right ..).trans left)
      · exact ih _ _ next left
    all_goals exact ih _ _ next kept

theorem splitTopLevelStatements_ends (laid : TokensLaid input tokens) :
    splitTopLevelStatements tokens input = pure (CueShell.splitTopLevelStatements tokens input) :=
  splitLoop_ends laid [] 0 rfl (List.Sublist.refl _)

/-- The statements of laid tokens are laid. -/
theorem chunk_laid {chunk : ScriptChunk} (laid : TokensLaid input tokens)
    (member : chunk ∈ CueShell.splitTopLevelStatements tokens input) :
    (⟨chunk.tokens, 0, input⟩ : IndexParser).Laid := by
  refine (laid.sublist ((chunk_sublist member).trans List.filter_sublist)).parser fun spanned inside => ?_
  exact (mem_content_of_chunk member spanned inside).2

theorem parseChunk_ends {chunk : ScriptChunk} (laid : (⟨chunk.tokens, 0, input⟩ : IndexParser).Laid) :
    parseChunk input chunk = ofExcept (CueShell.parseChunk input chunk) := by
  rw [parseChunk, IndexParser.parseSingleStatement_matches laid, CueShell.parseChunk]
  have view : (⟨chunk.tokens, 0, input⟩ : IndexParser).view = ⟨chunk.tokens, input⟩ := rfl
  rw [view]
  cases (⟨chunk.tokens, input⟩ : Parser).parseSingleStatement <;> rfl

theorem parseChunks_ends (laid : ∀ chunk ∈ chunks, (⟨chunk.tokens, 0, input⟩ : IndexParser).Laid) :
    parseChunks input chunks = ofExcept (chunks.mapM (CueShell.parseChunk input)) := by
  induction chunks with
  | nil => rfl
  | cons chunk chunks ih =>
    obtain ⟨first, others⟩ := List.forall_mem_cons.mp laid
    rw [parseChunks, parseChunk_ends first, ih others, List.mapM_cons]
    cases CueShell.parseChunk input chunk with
    | error => rfl
    | ok item =>
      cases chunks.mapM (CueShell.parseChunk input) <;> rfl

theorem parseTokens_ends (laid : TokensLaid input tokens) :
    parseTokens tokens input = ofExcept (Parser.parseTokens tokens input) := by
  rw [parseTokens, splitTopLevelStatements_ends laid, pure_bind, Parser.parseTokens]
  have statements := fun chunk => @chunk_laid input tokens chunk laid
  generalize CueShell.splitTopLevelStatements tokens input = chunks at statements
  cases chunks with
  | nil => rfl
  | cons first others =>
    cases others with
    | nil =>
      dsimp only
      rw [IndexParser.parseSingleStatement_matches (statements first (by simp))]
      have view : (⟨first.tokens, 0, input⟩ : IndexParser).view = ⟨first.tokens, input⟩ := rfl
      rw [view]
      cases (⟨first.tokens, input⟩ : Parser).parseSingleStatement <;> rfl
    | cons second others =>
      dsimp only
      rw [parseChunks_ends statements]
      cases (first :: second :: others).mapM (CueShell.parseChunk input) <;> rfl

/-- The parser ends on every input, as the parser over characters and token lists does. -/
theorem parse_ends (input : String) : parse input = ofExcept (Parser.parse input) := by
  rw [parse, tokenizeForParser_ends, Parser.parse, CueShell.tokenizeForParser]
  cases found : Tokenizer.tokenize input with
  | error => rfl
  | ok tokens => exact parseTokens_ends ((tokenize_laid found).sublist List.filter_sublist)

/-- A comment starts behind the characters in front of it. -/
theorem commentIndex_eq (scan : CommentScan) (index : ℕ) (line : List Char) :
    commentIndex scan index line = (beforeComment scan line).map fun front => index + Text.byteLength front := by
  induction line generalizing scan index with
  | nil => rfl
  | cons c rest ih =>
    rw [commentIndex, beforeComment]
    cases scan.step c with
    | none => rfl
    | some scan =>
      dsimp only
      rw [ih, Option.map_map]
      congr 1
      funext front
      rw [Function.comp, Text.byteLength_cons, Nat.add_assoc]

theorem beforeComment_split {scan : CommentScan} {line front : List Char}
    (found : beforeComment scan line = some front) : ∃ back, line = front ++ back := by
  induction line generalizing scan front with
  | nil => simp [beforeComment] at found
  | cons c rest ih =>
    rw [beforeComment] at found
    cases next : scan.step c with
    | none =>
      rw [next] at found
      obtain rfl := Option.some.inj found
      exact ⟨c :: rest, rfl⟩
    | some scan =>
      rw [next] at found
      obtain ⟨front, inner, rfl⟩ := Option.map_eq_some_iff.mp found
      obtain ⟨back, rfl⟩ := ih inner
      exact ⟨back, rfl⟩

theorem stripFileScriptComment_ends (line : List Char) :
    stripFileScriptComment line = pure (CueShell.stripFileScriptComment line) := by
  rw [stripFileScriptComment, CueShell.stripFileScriptComment, commentIndex_eq]
  cases found : beforeComment {} line with
  | none => rfl
  | some front =>
    obtain ⟨back, rfl⟩ := beforeComment_split found
    have cut := @strSlice_append ParseError [] front back
    rw [Text.byteLength_nil, Nat.zero_add, List.nil_append] at cut
    dsimp only [Option.map_some]
    rw [Nat.zero_add, cut, pure_bind]

theorem normalizeLines_ends (index : ℕ) (lines : List (List Char × Bool)) :
    normalizeLines index lines = pure ((lines.zipIdx index).map fun ((line, ended), index) =>
      CueShell.normalizeLine index line ++ if ended then ['\n'] else []).flatten := by
  induction lines generalizing index with
  | nil => rfl
  | cons first lines ih =>
    obtain ⟨line, ended⟩ := first
    have body : normalizeLine index line = pure (CueShell.normalizeLine index line) := by
      rw [normalizeLine, CueShell.normalizeLine, stripFileScriptComment_ends]
      split_ifs <;> rfl
    rw [normalizeLines, body, pure_bind, ih, pure_bind]
    rfl

theorem parseTokensAsScript_ends (laid : TokensLaid input tokens) :
    parseTokensAsScript tokens input = ofExcept (Parser.parseTokensAsScript tokens input) := by
  rw [parseTokensAsScript, splitTopLevelStatements_ends laid, pure_bind, Parser.parseTokensAsScript]
  have statements := fun chunk => @chunk_laid input tokens chunk laid
  generalize CueShell.splitTopLevelStatements tokens input = chunks at statements
  cases chunks with
  | nil => rfl
  | cons first others =>
    dsimp only
    rw [parseChunks_ends statements]
    cases (first :: others).mapM (CueShell.parseChunk input) <;> rfl

theorem parseFileScript_ends (input : String) :
    parseFileScript input = ofExcept (Parser.parseFileScript input) := by
  have normalized : normalizeFileScript input.toList = pure (CueShell.normalizeFileScript input.toList) :=
    normalizeLines_ends ..
  rw [parseFileScript, normalized, pure_bind, Parser.parseFileScript]
  generalize CueShell.normalizeFileScript input.toList = text
  rw [tokenizeForParser_ends, CueShell.tokenizeForParser]
  cases found : Tokenizer.tokenize (String.ofList text) with
  | error => rfl
  | ok tokens =>
    have laid := tokenize_laid found
    rw [String.toList_ofList] at laid
    exact parseTokensAsScript_ends (laid.sublist List.filter_sublist)

end Statements

section Resolver

variable {words : List String} {span : Span} {mode : Mode}

theorem parseDoSchedule_ends (words : List String) (span : Span) :
    parseDoSchedule words span = ofExcept (CueShell.parseDoSchedule words span) := by
  rw [parseDoSchedule]
  cases found : words.findIdx? (· == "do") with
  | none => rfl
  | some index =>
    obtain ⟨inside, -⟩ := List.findIdx?_eq_some_iff_getElem.mp found
    dsimp only
    rw [if_pos (Nat.le_of_lt inside)]

theorem parseScheduleWords_ends (words : List String) (span : Span) :
    parseScheduleWords words span = ofExcept (CueShell.parseScheduleWords words span) := by
  rw [parseScheduleWords]
  cases first : words[0]? with
  | none => rfl
  | some keyword =>
    dsimp only
    split_ifs with known
    · rfl
    · rw [parseDoSchedule_ends, CueShell.parseScheduleWords, first]
      simp only [List.mem_cons, List.not_mem_nil, or_false, not_or] at known
      simp [known]

theorem parseBareCronSchedule_ends (words : List String) (span : Span) :
    parseBareCronSchedule words span = ofExcept (CueShell.parseBareCronSchedule words span) := by
  rw [parseBareCronSchedule, parseScheduleWords_ends, CueShell.parseBareCronSchedule]
  cases CueShell.parseScheduleWords words span <;> rfl

theorem splitBareCronChain_ends (chain : ChainNode) (span : Span) :
    splitBareCronChain chain span = ofExcept (CueShell.splitBareCronChain chain span) := by
  rw [splitBareCronChain, CueShell.splitBareCronChain]
  cases chain.leftmostCommandWords with
  | none => rfl
  | some words =>
    dsimp only
    rw [parseBareCronSchedule_ends]
    cases found : CueShell.parseBareCronSchedule words span with
    | error => rfl
    | ok value =>
      obtain ⟨schedule, consumed⟩ := value
      have below := parseBareCronSchedule_le found
      change (if words.length = consumed then _ else _) = ofExcept (if words.length = consumed then _ else _)
      split_ifs
      · rfl
      · rw [drainWords, if_pos below]
        rfl

theorem resolveCron_ends (chain : ChainNode) (params : ModeParams) (span : Span) :
    resolveCron chain params span = ofExcept (CueShell.resolveCron chain params span) := by
  rw [resolveCron, splitBareCronChain_ends, CueShell.resolveCron]
  cases CueShell.splitBareCronChain chain span with
  | error => rfl
  | ok value =>
    obtain ⟨ast, body⟩ := value
    have read : ofExcept (Except.ok (ast, body)) = (pure (ast, body) : Attempt ParseError _) := rfl
    rw [read, pure_bind, Parser.ok_bind]
    dsimp only
    cases convertCronSchedule ast <;> rfl

/-- The first white space stands between characters. -/
theorem splitFirstWord_ends (text : List Char) :
    splitFirstWord text = pure (CueShell.splitFirstWord text) := by
  rw [splitFirstWord, CueShell.splitFirstWord]
  split_ifs with blank
  · rfl
  · generalize Text.trim text = trimmed
    have parts := List.takeWhile_append_dropWhile (p := fun c => !Text.isWhiteSpace c) (l := trimmed)
    rw [findWhitespace]
    split_ifs with white
    · dsimp only
      generalize trimmed.takeWhile (fun c => !Text.isWhiteSpace c) = word at parts ⊢
      generalize trimmed.dropWhile (fun c => !Text.isWhiteSpace c) = rest at parts ⊢
      subst parts
      have front := @strSlice_append ParseError [] word rest
      have back := @strSlice_append ParseError word rest []
      rw [Text.byteLength_nil, Nat.zero_add] at front
      rw [List.append_nil, ← Text.byteLength_append] at back
      rw [List.nil_append] at front
      rw [front, pure_bind, back, pure_bind]
    · have all : ∀ c ∈ trimmed, (!Text.isWhiteSpace c) = true := by simpa using white
      rw [List.takeWhile_eq_self_iff.mpr all, List.dropWhile_eq_nil_iff.mpr all]

theorem extractTargetAndText_rawText (argument : Argument) (span : Span) (command : String) :
    CueShell.extractTargetAndText argument span command =
      match CueShell.splitFirstWord (Text.trim argument.rawText) with
      | none => .error ⟨span, "`:" ++ command ++ "` requires a target and input", .missingArgument,
          [":" ++ command ++ " J1 your input"]⟩
      | some (id, rest) =>
          if Text.trim rest = [] then
            .error ⟨span, "`:" ++ command ++ "` requires input after the target", .missingArgument,
              [":" ++ command ++ " J1 your input"]⟩
          else .ok (String.ofList id, String.ofList (Text.trim rest)) := by
  cases argument <;> rfl

theorem extractTargetAndText_ends (argument : Argument) (span : Span) (command : String) :
    extractTargetAndText argument span command = ofExcept (CueShell.extractTargetAndText argument span command) := by
  rw [extractTargetAndText_rawText, extractTargetAndText, splitFirstWord_ends, pure_bind]
  cases CueShell.splitFirstWord (Text.trim argument.rawText) with
  | none => rfl
  | some found =>
    dsimp only
    split_ifs <;> rfl

theorem resolveCommand_ends (name : String) (modeParams : List (String × Value)) (argument : Argument) (span : Span) :
    resolveCommand name modeParams argument span =
      ExceptT.mk (CueShell.Resolver.resolveCommand name modeParams argument span) := by
  unfold resolveCommand
  split
  · next chain =>
    rw [resolveCron_ends]
    rfl
  · rw [extractTargetAndText_ends]
    have send : CueShell.Resolver.resolveCommand "send" modeParams argument span =
        some ((CueShell.extractTargetAndText argument span "send").map fun found =>
          .send found.1 found.2) := by
      cases argument <;> rfl
    rw [send]
    cases CueShell.extractTargetAndText argument span "send" <;> rfl
  · rfl

theorem resolveBare_ends (argument : Argument) (mode : Mode) (span : Span) :
    resolveBare argument mode span = ofExcept (CueShell.Resolver.resolveBare argument mode span) := by
  unfold resolveBare
  split_ifs with help
  · rw [CueShell.Resolver.resolveBare.eq_def, if_pos help]
    rfl
  · split
    · next chain =>
      rw [resolveCron_ends, CueShell.Resolver.resolveBare.eq_def, if_neg help]
    · rfl

theorem resolveStatement_ends (mode : Mode) (statement : Statement) :
    resolveStatement mode statement = ExceptT.mk (CueShell.Resolver.resolveStatement mode statement) := by
  cases statement with
  | bareInput argument span => exact resolveBare_ends argument mode span
  | command name modeParams argument span => exact resolveCommand_ends name modeParams argument span

theorem resolveItems_ends (mode : Mode) (items : List ScriptItemAst) :
    resolveItems mode items = ExceptT.mk (CueShell.Resolver.resolveItems mode items) := by
  induction items with
  | nil => rfl
  | cons item items ih =>
    rw [resolveItems, resolveStatement_ends, ih, CueShell.Resolver.resolveItems]
    rcases CueShell.Resolver.resolveStatement mode item.statement with _ | (_ | command)
    · rfl
    · rfl
    · rcases CueShell.Resolver.resolveItems mode items with _ | (_ | items) <;> rfl

theorem resolve_ends (mode : Mode) (ast : Ast) :
    resolve mode ast = ExceptT.mk (CueShell.Resolver.resolve mode ast) := by
  cases ast with
  | script items span =>
    rw [resolve, resolveItems_ends, CueShell.Resolver.resolve]
    rcases CueShell.Resolver.resolveItems mode items with _ | (_ | items) <;> rfl
  | single statement =>
    rw [resolve, resolveStatement_ends, CueShell.Resolver.resolve]
    rcases CueShell.Resolver.resolveStatement mode statement with _ | (_ | command) <;> rfl

/-- The front end by positions does what the front end over characters and token lists does. -/
theorem parseCommand_ends (input : String) (mode : Mode) :
    parseCommand input mode = ExceptT.mk (CueShell.parseCommand input mode) := by
  rw [parseCommand, parse_ends, CueShell.parseCommand]
  cases Parser.parse input with
  | error => rfl
  | ok ast => exact resolve_ends mode ast

theorem parseFileScriptCommand_ends (input : String) :
    parseFileScriptCommand input = ExceptT.mk (CueShell.parseFileScriptCommand input) := by
  rw [parseFileScriptCommand, parseFileScript_ends, CueShell.parseFileScriptCommand]
  cases Parser.parseFileScript input with
  | error => rfl
  | ok ast => exact resolve_ends .job ast

end Resolver

end FrontEnd

section Arguments

variable {name : String} {modeParams : List (String × Value)} {argument : Argument} {span : Span}

/-- The resolver knows every command of the table, with a chain where the table asks for one. -/
theorem resolveCommand_isSome {spec : CommandSpec} (member : spec ∈ commandSpecs)
    (fits : spec.argKind = .chain ∨ spec.argKind = .cron → ∃ node, argument = .chain node) :
    (Resolver.resolveCommand spec.name modeParams argument span).isSome = true := by
  simp only [commandSpecs, List.mem_cons, List.not_mem_nil, or_false] at member
  rcases member with rfl | rfl | member
  · obtain ⟨node, rfl⟩ := fits (.inl rfl)
    rfl
  · obtain ⟨node, rfl⟩ := fits (.inr rfl)
    rfl
  · rcases member with
      rfl | rfl | rfl | rfl | rfl | rfl | rfl | rfl | rfl | rfl | rfl | rfl | rfl | rfl |
      rfl | rfl | rfl | rfl | rfl | rfl | rfl | rfl | rfl | rfl | rfl | rfl | rfl | rfl
    all_goals cases argument <;> rfl

/-- A command that takes a chain gets one. -/
theorem parseArgumentForCommand_takes {p p' : Parser} {spec : CommandSpec}
    (found : p.parseArgumentForCommand name spec = .ok (argument, p'))
    (kind : spec.argKind = .chain ∨ spec.argKind = .cron) : ∃ node, argument = .chain node := by
  rw [Parser.parseArgumentForCommand] at found
  rcases kind with kind | kind <;> rw [kind] at found <;> dsimp only at found <;> split_ifs at found
  · simp [Parser.fail] at found
  · obtain ⟨⟨node, p₁⟩, -, done⟩ := Parser.bind_eq_ok.mp found
    simp only [Except.ok.injEq, Prod.mk.injEq] at done
    exact ⟨node, done.1.symm⟩
  · simp [Parser.fail] at found
  · obtain ⟨⟨node, p₁⟩, -, done⟩ := Parser.bind_eq_ok.mp found
    simp only [Except.ok.injEq, Prod.mk.injEq] at done
    exact ⟨node, done.1.symm⟩

/-- What the parser accepts as a statement the resolver can resolve. -/
theorem parseSingleStatement_resolvable {p : Parser} {statement : Statement} (mode : Mode)
    (found : p.parseSingleStatement = .ok statement) :
    (Resolver.resolveStatement mode statement).isSome = true := by
  rw [Parser.parseSingleStatement] at found
  obtain ⟨⟨statement', p₁⟩, parsed, found⟩ := Parser.bind_eq_ok.mp found
  dsimp only at found
  split_ifs at found
  · obtain rfl : statement' = statement := Except.ok.inj found
    rw [Parser.parseStatement] at parsed
    dsimp only at parsed
    split at parsed
    · next name _ =>
      rw [IndexParser.parseCommand_eq] at parsed
      obtain ⟨spec, known, parsed⟩ := Parser.bind_eq_ok.mp parsed
      obtain ⟨⟨params, p₂⟩, -, parsed⟩ := Parser.bind_eq_ok.mp parsed
      obtain ⟨⟨argument, p₃⟩, argued, parsed⟩ := Parser.bind_eq_ok.mp parsed
      simp only [Except.ok.injEq, Prod.mk.injEq] at parsed
      obtain ⟨rfl, -⟩ := parsed
      rw [Parser.commandSpecOrError] at known
      cases listed : commandSpec name with
      | none => simp [listed, Parser.fail] at known
      | some spec' =>
        rw [listed] at known
        obtain rfl : spec' = spec := Except.ok.inj known
        have member := List.mem_of_find?_eq_some listed
        obtain rfl : spec'.name = name := by simpa using List.find?_some listed
        exact resolveCommand_isSome member (parseArgumentForCommand_takes argued)
    · simp only [Except.ok.injEq, Prod.mk.injEq] at parsed
      obtain ⟨rfl, -⟩ := parsed
      rfl
    · obtain ⟨⟨node, p₂⟩, -, parsed⟩ := Parser.bind_eq_ok.mp parsed
      simp only [Except.ok.injEq, Prod.mk.injEq] at parsed
      obtain ⟨rfl, -⟩ := parsed
      rfl
  · simp [Parser.fail] at found

theorem resolveItems_isSome {items : List ScriptItemAst} (mode : Mode)
    (all : ∀ item ∈ items, (Resolver.resolveStatement mode item.statement).isSome = true) :
    (Resolver.resolveItems mode items).isSome = true := by
  induction items with
  | nil => rfl
  | cons item items ih =>
    obtain ⟨first, others⟩ := List.forall_mem_cons.mp all
    obtain ⟨result, found⟩ := Option.isSome_iff_exists.mp first
    rw [Resolver.resolveItems, found]
    cases result with
    | error => rfl
    | ok command => simpa using ih others

theorem script_resolvable {input : List Char} {chunks : List ScriptChunk} {items : List ScriptItemAst} {span : Span}
    (mode : Mode) (parsed : chunks.mapM (parseChunk input) = .ok items) :
    (Resolver.resolve mode (.script items span)).isSome = true := by
  simp only [Resolver.resolve, Option.isSome_map]
  refine resolveItems_isSome mode fun item member => ?_
  obtain ⟨chunk, -, made⟩ := mapM_ok parsed item member
  rw [parseChunk] at made
  obtain ⟨statement, parsed', done⟩ := Parser.bind_eq_ok.mp made
  obtain rfl := Except.ok.inj done
  exact parseSingleStatement_resolvable mode parsed'

/-- What the parser accepts the resolver can resolve: no `unreachable!` is reached. -/
theorem parse_resolvable {input : String} {ast : Ast} (mode : Mode) (found : Parser.parse input = .ok ast) :
    (Resolver.resolve mode ast).isSome = true := by
  rw [Parser.parse] at found
  obtain ⟨tokens, -, found⟩ := Parser.bind_eq_ok.mp found
  rw [Parser.parseTokens] at found
  split at found
  · obtain rfl := Except.ok.inj found
    rfl
  · obtain ⟨statement, parsed, done⟩ := Parser.bind_eq_ok.mp found
    obtain rfl := Except.ok.inj done
    simpa [Resolver.resolve] using parseSingleStatement_resolvable mode parsed
  · next chunks _ _ _ =>
    obtain ⟨items, parsed, done⟩ := Parser.bind_eq_ok.mp found
    obtain rfl := Except.ok.inj done
    exact script_resolvable mode parsed

theorem parseFileScript_resolvable {input : String} {ast : Ast} (mode : Mode)
    (found : Parser.parseFileScript input = .ok ast) : (Resolver.resolve mode ast).isSome = true := by
  rw [Parser.parseFileScript] at found
  obtain ⟨tokens, -, found⟩ := Parser.bind_eq_ok.mp found
  rw [Parser.parseTokensAsScript] at found
  split at found
  · cases found
  · obtain ⟨items, parsed, done⟩ := Parser.bind_eq_ok.mp found
    obtain rfl := Except.ok.inj done
    exact script_resolvable mode parsed

/-- Tokenizing, parsing and resolving end, with a command or an error. -/
theorem FrontEnd.parseCommand_isSome (input : String) (mode : Mode) :
    (FrontEnd.parseCommand input mode).run.isSome = true := by
  rw [FrontEnd.parseCommand_ends]
  change (CueShell.parseCommand input mode).isSome = true
  rw [CueShell.parseCommand]
  cases found : Parser.parse input with
  | error => rfl
  | ok ast => exact parse_resolvable mode found

theorem FrontEnd.parseFileScriptCommand_isSome (input : String) :
    (FrontEnd.parseFileScriptCommand input).run.isSome = true := by
  rw [FrontEnd.parseFileScriptCommand_ends]
  change (CueShell.parseFileScriptCommand input).isSome = true
  rw [CueShell.parseFileScriptCommand]
  cases found : Parser.parseFileScript input with
  | error => rfl
  | ok ast => exact parseFileScript_resolvable .job found

end Arguments

end CueShell
