import CueShell.Proofs.PlainLines
import CueShell.Proofs.ReadableTexts

/-! # The text of a send

`:send` takes its text from the input and not from the tokens, so that the characters arrive as they were
written. The input is tokenized before, though, and a text that the tokenizer rejects is not sent.
-/

namespace CueShell

open Tokenizer

section Line

variable {t t' : Tokenizer} {spanned : Spanned} {tokens : List Spanned} {fuel : ℕ}

/-- On a line a token is a blank text, or it is significant. -/
theorem Lexeme.on_line {token : Token} {text rest : List Char} {last : Option TokenClass} {flag : Bool}
    (lexeme : Lexeme t token text rest last flag) (line : '\n' ∉ text) :
    (token.isWhitespace = true ∧ ∀ c ∈ text, isBlank c = true) ∨
      (token.isWhitespace = false ∧ token ≠ .newline) := by
  cases lexeme with
  | lineFeed => simp at line
  | returnFeed => simp at line
  | blanks => exact .inl ⟨rfl, fun c member => List.mem_takeWhile_imp member⟩
  | operator visible =>
    refine .inr ?_
    cases token <;> first | exact absurd rfl visible | exact ⟨rfl, by simp⟩
  | _ => exact .inr ⟨rfl, by simp⟩

/-- On a line the significant tokens cover the text, and only the last one is the end. -/
theorem tokenizeLoop_line (line : '\n' ∉ t.rest) (enough : t.rest.length < fuel)
    (found : tokenizeLoop fuel t = .ok tokens) :
    ∃ read final, tokens.filter (fun spanned => !spanned.token.isWhitespace) = read ++ [final] ∧
      final.token = .eof ∧ (∀ spanned ∈ read, spanned.token ≠ .newline ∧ spanned.token ≠ .eof) ∧
      Tiled t.pos t.rest read := by
  induction fuel generalizing t tokens with
  | zero => exact absurd enough (Nat.not_lt_zero _)
  | succ fuel ih =>
    by_cases more : t.rest = []
    · rw [tokenizeLoop, nextToken_nil more, Parser.ok_bind] at found
      simp only [if_true, Except.ok.injEq] at found
      subst found
      exact ⟨[], ⟨.eof, ⟨t.pos, t.pos⟩⟩, by simp [Token.isWhitespace], rfl, by simp, more ▸ .nil⟩
    · obtain ⟨⟨spanned, t'⟩, next, -⟩ := Parser.bind_eq_ok.mp (show (t.nextToken >>= _) = _ from found)
      rcases nextToken_emits next with ⟨none, -⟩ | ⟨token, text, rest, last, flag, lexeme, emitted⟩
      · exact absurd none more
      obtain ⟨others, loop, rfl⟩ := tokenizeLoop_step next (nextToken_moves next more).1 found
      obtain ⟨rfl, rfl⟩ := Prod.mk.inj emitted
      have split := lexeme.split
      have size := List.length_pos_of_ne_nil lexeme.nonempty
      rw [split] at line
      rw [split, List.length_append] at enough
      obtain ⟨read, final, kept, isFinal, content, tiled⟩ :=
        ih (fun member => line (List.mem_append_right _ member)) (show rest.length < fuel by omega) loop
      rw [split]
      rcases lexeme.on_line (fun member => line (List.mem_append_left _ member)) with
        ⟨blank, white⟩ | ⟨visible, newline⟩
      · exact ⟨read, final, by simp [blank, kept], isFinal, content, .blanks white tiled⟩
      · exact ⟨_ :: read, final, by simp [visible, kept], isFinal,
          List.forall_mem_cons.mpr ⟨⟨newline, lexeme.ne_eof⟩, content⟩, .token token tiled⟩

/-- The tokens of a line stay in one statement. -/
theorem splitLoop_line {read : List Spanned} {final : Spanned} (isFinal : final.token = .eof)
    (content : ∀ spanned ∈ read, spanned.token ≠ .newline ∧ spanned.token ≠ .eof) (input : List Char)
    (chunks : List ScriptChunk) (current : List Spanned) (depth : ℕ) :
    splitLoop input chunks current depth (read ++ [final]) =
      pushScriptChunk input chunks (current ++ read) := by
  induction read generalizing current depth with
  | nil => simp [splitLoop, isFinal]
  | cons spanned read ih =>
    obtain ⟨⟨newline, real⟩, others⟩ := List.forall_mem_cons.mp content
    have next (depth : ℕ) := ih others (current ++ [spanned]) depth
    rw [List.append_assoc, List.singleton_append] at next
    rw [List.cons_append, splitLoop]
    split <;> first | exact next _ | contradiction

end Line

section Send

variable {number : ℕ} {text : List Char}

/-- The target and the text of a send. -/
def sendArgument (number : ℕ) (text : List Char) : List Char :=
  (IdKind.job.idText number).toList ++ ' ' :: text

/-- The tokenizer in front of the target. -/
def beforeTarget (number : ℕ) (text : List Char) : Tokenizer :=
  ⟨sendArgument number text, some ' ', 6, some .command, false⟩

/-- The tokenizer in front of the text. -/
def behindTarget (number : ℕ) (text : List Char) : Tokenizer :=
  ⟨text, some ' ', 6 + Text.byteLength (IdKind.job.idText number).toList + 1, some .other, false⟩

def sendInput (number : ℕ) (text : String) : String :=
  ":send " ++ IdKind.job.idText number ++ " " ++ text

theorem toList_sendInput (number : ℕ) (text : String) :
    (sendInput number text).toList = ":send ".toList ++ sendArgument number text.toList := by
  simp [sendInput, sendArgument]

theorem idText_first (number : ℕ) : ∃ digits, (IdKind.job.idText number).toList = 'J' :: digits :=
  ⟨_, idText_toList .job number⟩

/-- The command name and the blank behind it. -/
theorem tokenize_send (number : ℕ) (text : String) :
    tokenize (sendInput number text) =
      (tokenizeLoop ((sendArgument number text.toList).length + 5) (beforeTarget number text.toList) >>=
        fun tokens => .ok (commandToken "send" :: ⟨.whitespace " ", ⟨5, 6⟩⟩ :: tokens)) := by
  have isName : CommandName "send" := ⟨by decide, List.all_iff_forall_prop.mp rfl⟩
  have length : (sendInput number text).length = (sendArgument number text.toList).length + 6 := by
    rw [← String.length_toList, toList_sendInput, List.length_append, Nat.add_comm]
    rfl
  have start : Tokenizer.new (sendInput number text) =
      ⟨':' :: ("send".toList ++ ' ' :: sendArgument number text.toList), none, 0, none, false⟩ := by
    rw [Tokenizer.new, toList_sendInput]
    rfl
  have command := @nextToken_command _ isName (' ' :: sendArgument number text.toList) (by simp [Spaced])
  have blank : (behindCommand "send" (' ' :: sendArgument number text.toList)).nextToken =
      .ok (⟨.whitespace " ", ⟨5, 6⟩⟩, beforeTarget number text.toList) := by
    obtain ⟨digits, first⟩ := idText_first number
    refine (@nextToken_blanks _ (behindCommand "send" (' ' :: sendArgument number text.toList)) 0 ?_ rfl).trans rfl
    simp [first, isBlank]
  rw [tokenize, length, start, tokenizeLoop, command, Parser.ok_bind]
  dsimp only
  rw [if_neg (by simp [commandToken]), tokenizeLoop, blank, Parser.ok_bind]
  dsimp only
  rw [if_neg (by simp)]
  cases tokenizeLoop ((sendArgument number text.toList).length + 5) (beforeTarget number text.toList) <;> rfl

/-- The target. -/
def targetToken (number : ℕ) : Spanned :=
  ⟨.idRef .job number, ⟨6, 6 + Text.byteLength (IdKind.job.idText number).toList⟩⟩

/-- The tokenizer in front of the blank behind the target. -/
def atTarget (number : ℕ) (text : List Char) : Tokenizer :=
  ((beforeTarget number text).emitOther (.idRef .job number) (IdKind.job.idText number).toList (' ' :: text)).2

theorem nextToken_target (small : number < 2 ^ 32) :
    (beforeTarget number text).nextToken = .ok (targetToken number, atTarget number text) := by
  have inside : (beforeTarget number text).Inside := ⟨Nat.succ_pos 5, by simp [beforeTarget], rfl⟩
  have spaced : Spaced (' ' :: text) := by simp [Spaced]
  have plain := plainWord_idText .job small
  have nonempty := (plainWord_iff.mp plain).1
  have atHead : idRefAt (sendArgument number text) = some (.job, number, Nat.toDigits 10 number) := by
    rw [sendArgument, idRefAt_append spaced.breaks nonempty, idRefAt_idText small]
  have length : (Nat.toDigits 10 number).length + 1 = (IdKind.job.idText number).toList.length := by
    rw [idText_toList]
    simp [IdKind.display, Nat.add_comm]
  have shape : (beforeTarget number text).rest = sendArgument number text := rfl
  rw [nextToken_word inside spaced plain rfl, tokenizeWord, shape, atHead]
  dsimp only
  rw [length, sendArgument, List.take_left, List.drop_left]
  rfl

/-- The target and the blank behind it. -/
theorem tokenizeLoop_target (small : number < 2 ^ 32) (dark : ∀ c ∈ text.head?, isBlank c = false) (fuel : ℕ) :
    ∃ gap, gap.token.isWhitespace = true ∧ tokenizeLoop (fuel + 2) (beforeTarget number text) =
      (tokenizeLoop fuel (behindTarget number text) >>= fun tokens =>
        .ok (targetToken number :: gap :: tokens)) := by
  obtain ⟨gap, blank, white⟩ : ∃ gap, (atTarget number text).nextToken = .ok (gap, behindTarget number text) ∧
      gap.token.isWhitespace = true := ⟨_, @nextToken_blanks text (atTarget number text) 0 dark rfl, rfl⟩
  have real : gap.token ≠ .eof := by
    rintro is
    simp [is, Token.isWhitespace] at white
  refine ⟨gap, white, ?_⟩
  rw [tokenizeLoop, nextToken_target small, Parser.ok_bind]
  dsimp only
  rw [if_neg (by simp [targetToken]), tokenizeLoop, blank, Parser.ok_bind]
  dsimp only
  rw [if_neg real]
  cases tokenizeLoop fuel (behindTarget number text) <;> rfl

/-- The target and the text are a statement of their own tokens. -/
theorem parseSingleStatement_send (input : List Char) (others : List Spanned)
    (argument : (⟨targetToken number :: others, input⟩ : Parser).consumeRemainingRawText.1 =
      String.ofList (sendArgument number text)) :
    ∃ span, (⟨commandToken "send" :: targetToken number :: others, input⟩ : Parser).parseSingleStatement =
      .ok (.command "send" [] (.text (String.ofList (sendArgument number text))) span) := by
  obtain ⟨spec, found, kind⟩ : ∃ spec, commandSpec "send" = some spec ∧ spec.argKind = .targetText .job :=
    ⟨_, rfl, rfl⟩
  have known : (⟨targetToken number :: others, input⟩ : Parser).commandSpecOrError "send" = .ok spec := by
    rw [Parser.commandSpecOrError, found]
  have visible : String.ofList (sendArgument number text) ≠ "" := by
    simp [sendArgument]
  have next : (⟨targetToken number :: others, input⟩ : Parser).peek = .idRef .job number := rfl
  have read : (⟨targetToken number :: others, input⟩ : Parser).parseArgumentForCommand "send" spec =
      .ok (.text (String.ofList (sendArgument number text)), ⟨[], input⟩) := by
    have fits : Parser.validateTextTarget "send" .job (.idRef .job number)
        (⟨targetToken number :: others, input⟩ : Parser).peekSpan = .ok () := rfl
    have whole : (⟨targetToken number :: others, input⟩ : Parser).consumeRemainingRawText =
        (String.ofList (sendArgument number text), ⟨[], input⟩) := Prod.ext argument rfl
    rw [Parser.parseArgumentForCommand, kind]
    dsimp only
    rw [next, fits, Parser.ok_bind, whole]
    dsimp only
    rw [if_neg visible]
  have statement : (⟨commandToken "send" :: targetToken number :: others, input⟩ : Parser).parseStatement =
      .ok (.command "send" [] (.text (String.ofList (sendArgument number text))) ⟨0, Text.byteLength input⟩,
        ⟨[], input⟩) := by
    have peeked : (⟨commandToken "send" :: targetToken number :: others, input⟩ : Parser).peek =
        .command "send" := rfl
    have advanced : (⟨commandToken "send" :: targetToken number :: others, input⟩ : Parser).advance =
        ⟨targetToken number :: others, input⟩ := rfl
    rw [Parser.parseStatement]
    dsimp only
    rw [peeked]
    dsimp only
    rw [Parser.parseCommand]
    dsimp only
    rw [advanced, known, Parser.ok_bind, next, if_neg (by simp), Parser.ok_bind]
    dsimp only
    rw [read, Parser.ok_bind]
    rfl
  refine ⟨⟨0, Text.byteLength input⟩, ?_⟩
  rw [Parser.parseSingleStatement, statement, Parser.ok_bind]
  rfl

/-- A text that neither starts nor ends with white space. -/
structure Trimmed (text : List Char) : Prop where
  nonempty : text ≠ []
  first : ∀ c ∈ text.head?, Text.isWhiteSpace c = false
  last : ∀ c ∈ text.getLast?, Text.isWhiteSpace c = false

theorem Trimmed.trim (trimmed : Trimmed text) : Text.trim text = text :=
  Text.trim_of_ends trimmed.first trimmed.last

theorem idText_dark (number : ℕ) : ∀ c ∈ (IdKind.job.idText number).toList, Text.isWhiteSpace c = false := by
  rw [idText_toList]
  intro c member
  rcases List.mem_append.mp member with letter | digit
  · obtain rfl : c = 'J' := by simpa [IdKind.display] using letter
    rfl
  · exact Text.isWhiteSpace_of_isDigit (isDigit_toDigits number c digit)

theorem Trimmed.argument (trimmed : Trimmed text) (number : ℕ) : Trimmed (sendArgument number text) where
  nonempty := by simp [sendArgument]
  first c head := by
    obtain ⟨digits, first⟩ := idText_first number
    obtain rfl : 'J' = c := by simpa [sendArgument, first] using head
    rfl
  last c final := by
    refine trimmed.last c ?_
    obtain ⟨d, rest, rfl⟩ := List.exists_cons_of_ne_nil trimmed.nonempty
    simpa [sendArgument, List.getLast?_append] using final

/-- The parser takes the target and the text apart again. -/
theorem extractTargetAndText_send (trimmed : Trimmed text) (span : Span) :
    extractTargetAndText (.text (String.ofList (sendArgument number text))) span "send" =
      .ok (IdKind.job.idText number, String.ofList text) := by
  have dark : ∀ c ∈ (IdKind.job.idText number).toList, (!Text.isWhiteSpace c) = true := by
    simpa using idText_dark number
  have word : (sendArgument number text).takeWhile (!Text.isWhiteSpace ·) = (IdKind.job.idText number).toList := by
    rw [sendArgument, List.takeWhile_append_of_pos dark, List.takeWhile_cons_of_neg (by decide), List.append_nil]
  have behind : (sendArgument number text).dropWhile (!Text.isWhiteSpace ·) = ' ' :: text := by
    rw [sendArgument, List.dropWhile_append_of_pos dark, List.dropWhile_cons_of_neg (by decide)]
  have split : splitFirstWord (Text.trim (sendArgument number text)) =
      some ((IdKind.job.idText number).toList, ' ' :: text) := by
    have whole := (trimmed.argument number).trim
    rw [whole, splitFirstWord, whole]
    simp [(trimmed.argument number).nonempty, word, behind]
  have kept : Text.trim (' ' :: text) = text := trimmed.trim
  rw [extractTargetAndText]
  simp [split, kept, trimmed.nonempty]

theorem tokenizeLoop_behindTarget (line : '\n' ∉ text) {fuel : ℕ} (enough : text.length < fuel) :
    (∃ tokens, tokenizeLoop fuel (behindTarget number text) = .ok tokens) ↔ Readable false true text := by
  have amid : (behindTarget number text).Amid := ⟨Nat.succ_ne_zero _, rfl, rfl⟩
  exact tokenizeLoop_readable fuel amid line enough

theorem Trimmed.full (trimmed : Trimmed text) : ∀ c ∈ text.head?, isBlank c = false := by
  intro c first
  by_contra blank
  have white := isWhiteSpace_of_isBlank (Bool.eq_true_of_not_eq_false blank)
  simp [trimmed.first c first] at white

theorem length_lt_sendArgument (number : ℕ) (text : List Char) :
    text.length < (sendArgument number text).length + 3 := by
  simp only [sendArgument, List.length_append, List.length_cons]
  omega

/-- A text that is not readable is not sent. -/
theorem tokenize_send_error (small : number < 2 ^ 32) {text : String} (trimmed : Trimmed text.toList)
    (line : '\n' ∉ text.toList) (unread : ¬ Readable false true text.toList) :
    ∃ e, tokenize (sendInput number text) = .error e := by
  obtain ⟨gap, -, target⟩ :=
    tokenizeLoop_target small trimmed.full ((sendArgument number text.toList).length + 3)
  have read := @tokenizeLoop_behindTarget number _ line _ (length_lt_sendArgument number text.toList)
  rw [tokenize_send, target]
  rcases loop : tokenizeLoop ((sendArgument number text.toList).length + 3) (behindTarget number text.toList)
    with e | tokens
  · exact ⟨e, rfl⟩
  · exact absurd (read.mp ⟨tokens, loop⟩) unread

/-- What lies between the first and the last token of the argument is the argument. -/
theorem consumeRemainingRawText_send {text : String} {others : List Spanned} (trimmed : Trimmed text.toList)
    (tiled : Tiled 6 (sendArgument number text.toList) (targetToken number :: others)) :
    (⟨targetToken number :: others, (sendInput number text).toList⟩ : Parser).consumeRemainingRawText.1 =
      String.ofList (sendArgument number text.toList) := by
  have whole := trimmed.argument number
  rcases tiled.extent with ⟨none, -⟩ | ⟨lead, mid, trail, first, last, split, head, final, start, stop, left, right⟩
  · simp at none
  have noLead : lead = [] := by
    cases lead with
    | nil => rfl
    | cons c lead =>
      have white := isWhiteSpace_of_isBlank (left c (by simp))
      simp [whole.first c (by simp [split])] at white
  have noTrail : trail = [] := by
    rcases List.eq_nil_or_concat trail with none | ⟨front, c, rfl⟩
    · exact none
    · have white := isWhiteSpace_of_isBlank (right c (by simp))
      have final : (sendArgument number text.toList).getLast? = some c := by
        rw [split, ← List.append_assoc, List.concat_eq_append, ← List.append_assoc, List.getLast?_concat]
      simp [whole.last c final] at white
  subst noLead noTrail
  have six : (6 : ℕ) = Text.byteLength ":send ".toList := rfl
  rw [Parser.consumeRemainingRawText, head, final]
  dsimp only
  rw [toList_sendInput, start, stop, split, Text.byteLength_nil, Nat.add_zero, six, List.nil_append,
    Text.slice_append]
  simp

/-- A readable text is parsed with the target in front of it. -/
theorem parse_send (small : number < 2 ^ 32) {text : String} (trimmed : Trimmed text.toList)
    (line : '\n' ∉ text.toList) (readable : Readable false true text.toList) :
    ∃ span, Parser.parse (sendInput number text) =
      .ok (.single (.command "send" [] (.text (String.ofList (sendArgument number text.toList))) span)) := by
  obtain ⟨gap, white, target⟩ :=
    tokenizeLoop_target small trimmed.full ((sendArgument number text.toList).length + 3)
  obtain ⟨tokens, loop⟩ :=
    (tokenizeLoop_behindTarget line (length_lt_sendArgument number text.toList)).mpr readable
  rw [loop, Parser.ok_bind] at target
  have clean : '\n' ∉ sendArgument number text.toList := by
    rw [sendArgument, List.mem_append, List.mem_cons]
    rintro (target | blank | later)
    · simpa [Text.isWhiteSpace] using idText_dark number '\n' target
    · simp at blank
    · exact line later
  have enough : (sendArgument number text.toList).length < (sendArgument number text.toList).length + 3 + 2 := by
    omega
  obtain ⟨read, final, kept, isFinal, content, tiled⟩ :=
    @tokenizeLoop_line (beforeTarget number text.toList) _ _ clean enough target
  have visible : (targetToken number).token.isWhitespace = false := rfl
  obtain ⟨others, rfl⟩ : ∃ others, read = targetToken number :: others := by
    rw [List.filter_cons_of_pos (by simp [visible])] at kept
    cases read with
    | nil =>
      obtain ⟨rfl, -⟩ := List.cons.inj kept
      simp [targetToken] at isFinal
    | cons first others =>
      obtain ⟨rfl, -⟩ := List.cons.inj kept
      exact ⟨others, rfl⟩
  have tokenized : tokenizeForParser (sendInput number text) =
      .ok (commandToken "send" :: targetToken number :: others ++ [final]) := by
    have named : (commandToken "send").token.isWhitespace = false := rfl
    rw [tokenizeForParser, tokenize_send, target, Parser.ok_bind]
    dsimp only
    rw [List.filter_cons_of_pos (by simp [named]), List.filter_cons_of_neg (by simp [Token.isWhitespace]), kept]
    rfl
  have all : ∀ spanned ∈ commandToken "send" :: targetToken number :: others,
      spanned.token ≠ .newline ∧ spanned.token ≠ .eof :=
    List.forall_mem_cons.mpr ⟨by simp [commandToken], content⟩
  have covered : Tiled 0 (sendInput number text).toList (commandToken "send" :: targetToken number :: others) := by
    rw [toList_sendInput]
    exact @Tiled.token 0 ":send".toList _ _ (.command "send")
      (@Tiled.blanks _ [' '] _ _ (by simp [isBlank]) tiled)
  have colon : ':' ∈ (sendInput number text).toList := by simp [toList_sendInput]
  rcases pushScriptChunk_tiled covered (List.cons_ne_nil _ _) with ⟨blank, -⟩ | ⟨-, chunk, only, same⟩
  · have dark : Text.isWhiteSpace ':' = true := blank ':' colon
    simp [Text.isWhiteSpace] at dark
  obtain ⟨span, statement⟩ := parseSingleStatement_send (sendInput number text).toList others
    (consumeRemainingRawText_send trimmed tiled)
  refine ⟨span, ?_⟩
  rw [Parser.parse, tokenized, Parser.ok_bind, Parser.parseTokens, splitTopLevelStatements,
    splitLoop_line isFinal all, List.nil_append, only]
  dsimp only
  rw [same, statement]
  rfl

/-- The text of a send arrives as it was written exactly if it can be read behind a word. -/
theorem send_verbatim (mode : Mode) (number : ℕ) (text : String) (small : number < 2 ^ 32)
    (trimmed : Trimmed text.toList) (line : '\n' ∉ text.toList) :
    parseCommand (":send " ++ IdKind.job.idText number ++ " " ++ text) mode =
        some (.ok (.single (.send (IdKind.job.idText number) text))) ↔
      Readable false true text.toList := by
  rw [← sendInput]
  constructor
  · intro accepted
    by_contra unread
    obtain ⟨e, fails⟩ := tokenize_send_error small trimmed line unread
    have rejected : Parser.parse (sendInput number text) = .error ⟨⟨e.pos, e.pos + 1⟩, e.message, .unexpectedToken, []⟩ := by
      rw [Parser.parse, tokenizeForParser, fails]
      rfl
    rw [CueShell.parseCommand, rejected] at accepted
    simp at accepted
  · intro readable
    obtain ⟨span, parsed⟩ := parse_send small trimmed line readable
    have resolved := @extractTargetAndText_send number _ trimmed span
    rw [String.ofList_toList] at resolved
    rw [CueShell.parseCommand, parsed]
    simp only [Resolver.resolve, Resolver.resolveStatement, Resolver.resolveCommand, resolved]
    rfl

theorem send_verbatim_operator :
    parseCommand (":send " ++ IdKind.job.idText 1 ++ " " ++ "y \"&\" -> (n)") .job =
      some (.ok (.single (.send (IdKind.job.idText 1) "y \"&\" -> (n)"))) := by
  refine (send_verbatim .job 1 "y \"&\" -> (n)" (by decide) ⟨by decide, ?_, ?_⟩ (by decide)).mpr ?_
  · exact fun c first => Option.some.inj first ▸ rfl
  · exact fun c last => Option.some.inj last ▸ rfl
  · refine .letter rfl rfl (by decide) (.gap (.inl rfl) (.double rfl (.gap (.inl rfl) ?_)))
    refine .operator rfl (by decide) (.gap (.inl rfl) (.gap (.inr (.inl rfl)) ?_))
    exact .letter rfl rfl (by decide) (.gap (.inr (.inr rfl)) .nil)

/-- An arrow without blanks around it. -/
theorem send_rejected : ∃ error, parseCommand ":send J1 a->b" .job = some (.error error) ∧
    parseCommand ":send J1 a->b" .job ≠ some (.ok (.single (.send "J1" "a->b"))) := by
  refine ⟨_, rfl, ?_⟩
  decide

end Send

end CueShell
