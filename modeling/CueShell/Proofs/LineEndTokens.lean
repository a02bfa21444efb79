import CueShell.Proofs.ChainTokens
import CueShell.ToMathlib.Agreement
import CueShell.ToMathlib.LineEnds
import Mathlib.Data.List.Chain

/-! # Tokens under another line end

The tokenizer runs in lock step on a text and on the same text with longer line ends, as long as
neither quotes nor carriage returns occur in it. There is one difference: a carriage return directly
behind a regular word becomes part of that word.
-/

namespace CueShell

open Tokenizer

/-- A text without quote characters and carriage returns. -/
def Unquoted (text : List Char) : Prop := '"' ∉ text ∧ '\'' ∉ text ∧ '\r' ∉ text

/-- A regular word or a parameter value. -/
def Token.isRegular : Token → Bool
  | .word _ | .paramValue _ => true
  | _ => false

/-- Tokenizers at the same place of both texts, or with the carriage return already swallowed. -/
inductive Lockstep (source : List Char) : Tokenizer → Tokenizer → Prop
  | aligned {front rest : List Char} {before : Option Char} {last : Option TokenClass} {flag : Bool} :
      source = front ++ rest →
      Lockstep source ⟨rest, before, Text.byteLength front, last, flag⟩
        ⟨Text.toCrlf rest, before, Text.byteLength (Text.toCrlf front), last, flag⟩
  | swallowed {front rest : List Char} {before before' : Option Char} {last : Option TokenClass}
      {flag : Bool} : source = front ++ '\n' :: rest →
      Lockstep source ⟨'\n' :: rest, before, Text.byteLength front, last, flag⟩
        ⟨'\n' :: Text.toCrlf rest, before', Text.byteLength (Text.toCrlf front) + 1, last, flag⟩

/-- The same token, between the same cuts of both texts. -/
def SameToken (source : List Char) (spanned spanned' : Spanned) : Prop :=
  spanned'.token = spanned.token ∧ ∃ first second, first <+: source ∧ second <+: source ∧
    spanned.span = ⟨Text.byteLength first, Text.byteLength second⟩ ∧
    spanned'.span = ⟨Text.byteLength (Text.toCrlf first), Text.byteLength (Text.toCrlf second)⟩

/-- Both tokenizers stand at the same place. -/
def Aligned (source : List Char) (t u : Tokenizer) : Prop := Lockstep source t u ∧ u.rest = Text.toCrlf t.rest

/-- What one step of two aligned tokenizers emits and where it leads. -/
inductive Steps (source : List Char) : Spanned × Tokenizer → Spanned × Tokenizer → Prop
  | same {spanned spanned' : Spanned} {t u : Tokenizer} : SameToken source spanned spanned' →
      Aligned source t u → Steps source (spanned, t) (spanned', u)
  | swallow {spanned spanned' : Spanned} {t u : Tokenizer} : spanned.token.isRegular = true →
      t.rest.head? = some '\n' → Lockstep source t u → Steps source (spanned, t) (spanned', u)

section Steps

variable {source front text rest word : List Char} {before : Option Char} {pos pos' : ℕ} {flag : Bool}
variable {last : Option TokenClass} {c : Char}

theorem operatorTexts_plain : ∀ operator ∈ operatorTexts, '\n' ∉ operator ∧ '\r' ∉ operator := by
  decide

theorem startsWithOperator_bars (other : rest.head? ≠ some '|') :
    startsWithOperator ('|' :: '|' :: rest) = some (.jobOr, .any) := by
  unfold startsWithOperator
  split <;> simp_all

theorem startsWithOperator_toCrlf (text : List Char) :
    startsWithOperator (Text.toCrlf text) = startsWithOperator text := by
  cases found : startsWithOperator text with
  | none =>
    rw [startsWithOperator_eq_none] at found ⊢
    intro operator member starts
    obtain ⟨feed, back⟩ := operatorTexts_plain operator member
    exact found operator member ((Text.isPrefix_toCrlf feed back).mp starts)
  | some operator =>
    revert found
    fun_cases startsWithOperator text with
    | case9 tail noBar =>
      intro found
      have other : (Text.toCrlf tail).head? ≠ some '|' := by
        rw [ne_eq, Text.head?_toCrlf_eq_some (by decide) (by decide)]
        intro first
        obtain ⟨more, rfl⟩ := List.head?_eq_some_iff.mp first
        exact noBar more rfl
      rw [Text.toCrlf_cons (by decide), Text.toCrlf_cons (by decide), startsWithOperator_bars other, found]
    | _ =>
      intro found
      simp_all [Text.toCrlf, startsWithOperator]

theorem startsWithOperator_split {token : Token} {boundary : OperatorBoundary}
    (starts : startsWithOperator text = some (token, boundary)) :
    (∃ rest, text = token.operatorText.toList ++ rest) ∧ '\n' ∉ token.operatorText.toList := by
  revert starts
  fun_cases startsWithOperator text with
  | case10 => simp
  | _ =>
    intro starts
    obtain ⟨rfl, rfl⟩ : _ = token ∧ _ = boundary := by simpa using starts
    exact ⟨⟨_, rfl⟩, by decide⟩

theorem operatorHasRequiredWhitespace_toCrlf {length : ℕ} (split : text = front ++ rest)
    (size : front.length = length) (plain : '\n' ∉ front) :
    operatorHasRequiredWhitespace before (Text.toCrlf text) length =
      operatorHasRequiredWhitespace before text length := by
  subst split size
  rw [operatorHasRequiredWhitespace, operatorHasRequiredWhitespace, Text.drop_toCrlf plain,
    List.drop_left, Text.all_head?_toCrlf rfl]

theorem tryIdKind_cons (c d : Char) (rest : List Char) : tryIdKind (c :: d :: rest) =
    if c = 'J' ∧ d.isDigit = true then some .job else if c = 'C' ∧ d.isDigit = true then some .cron
    else none := by
  unfold tryIdKind
  split <;> simp_all

theorem tryIdKind_toCrlf (text : List Char) : tryIdKind (Text.toCrlf text) = tryIdKind text := by
  match text with
  | [] => rfl
  | [c] => by_cases feed : c = '\n' <;> simp [feed, Text.toCrlf_cons, tryIdKind]
  | c :: d :: rest =>
    by_cases feed : c = '\n'
    · simp [feed, tryIdKind]
    · by_cases feed' : d = '\n'
      · rw [Text.toCrlf_cons feed, feed', Text.toCrlf_lineFeed, tryIdKind_cons, tryIdKind_cons]
        rfl
      · rw [Text.toCrlf_cons feed, Text.toCrlf_cons feed', tryIdKind_cons, tryIdKind_cons]

theorem stopsAtLineEnd_isDigit : Text.StopsAtLineEnd Char.isDigit := ⟨rfl, rfl⟩

theorem stopsAtLineEnd_isBlank : Text.StopsAtLineEnd isBlank := ⟨rfl, rfl⟩

theorem stopsAtLineEnd_isIdentChar : Text.StopsAtLineEnd isIdentChar := ⟨rfl, rfl⟩

theorem idRefAt_toCrlf (text : List Char) : idRefAt (Text.toCrlf text) = idRefAt text := by
  rw [idRefAt, idRefAt, tryIdKind_toCrlf]
  split
  · rfl
  · next kind announced =>
    obtain ⟨digit, more, shape⟩ := tryIdKind_eq_some announced
    obtain ⟨c, tail, rfl, plain⟩ : ∃ c tail, text = c :: tail ∧ c ≠ '\n' := by
      cases kind <;> exact ⟨_, _, shape, by decide⟩
    rw [Text.toCrlf_cons plain, List.tail_cons, List.tail_cons,
      Text.takeWhile_toCrlf stopsAtLineEnd_isDigit, Text.dropWhile_toCrlf stopsAtLineEnd_isDigit]
    dsimp only
    rw [Text.all_head?_toCrlf rfl]

theorem operator_spacing_toCrlf {token : Token} {boundary : OperatorBoundary}
    (starts : startsWithOperator text = some (token, boundary)) :
    operatorHasRequiredWhitespace before (Text.toCrlf text) token.operatorText.length =
      operatorHasRequiredWhitespace before text token.operatorText.length := by
  obtain ⟨⟨rest, split⟩, plain⟩ := startsWithOperator_split starts
  exact operatorHasRequiredWhitespace_toCrlf split String.length_toList plain

theorem not_lineFeed_of_go
    (go : ¬ (isDelimiter c || (flag && (c == '=' || c == ','))) = true) : c ≠ '\n' := by
  rintro rfl
  simp [isDelimiter] at go

/-- A gobbled word is the same, or takes the carriage return behind it along. -/
theorem gobbleWord_toCrlf (text : List Char) :
    match gobbleWord flag before pos text with
    | .error _ => ∃ e, gobbleWord flag before pos' (Text.toCrlf text) = .error e
    | .ok (word, rest) =>
        gobbleWord flag before pos' (Text.toCrlf text) =
          if rest.head? = some '\n' then .ok (word ++ ['\r'], '\n' :: Text.toCrlf rest.tail)
          else .ok (word, Text.toCrlf rest) := by
  fun_induction gobbleWord flag before pos text generalizing pos' with
  | case1 => simp [gobbleWord]
  | case2 before pos c text stop =>
    by_cases feed : c = '\n'
    · subst feed
      have back : startsWithOperator ('\r' :: '\n' :: Text.toCrlf text) = none := rfl
      cases flag <;> simp [gobbleWord, isDelimiter, back, Parser.ok_bind]
    · rw [Text.toCrlf_cons feed]
      simp [gobbleWord, stop, feed, Text.toCrlf_cons feed]
  | case3 before pos c text go token boundary starts required =>
    have feed := not_lineFeed_of_go go
    have starts' := startsWithOperator_toCrlf (c :: text) ▸ starts
    rw [← operator_spacing_toCrlf starts] at required
    rw [Text.toCrlf_cons feed] at starts' required ⊢
    simp [gobbleWord, go, starts', required]
  | case4 before pos c text go token boundary starts fine =>
    have feed := not_lineFeed_of_go go
    have starts' := startsWithOperator_toCrlf (c :: text) ▸ starts
    rw [← operator_spacing_toCrlf starts] at fine
    rw [Text.toCrlf_cons feed] at starts' fine ⊢
    simp [gobbleWord, go, starts', fine, feed, Text.toCrlf_cons feed]
  | case5 before pos c text go free ih =>
    have feed := not_lineFeed_of_go go
    have free' := startsWithOperator_toCrlf (c :: text) ▸ free
    rw [Text.toCrlf_cons feed] at free' ⊢
    have inner := @ih (pos' + c.utf8Size)
    rw [gobbleWord, if_neg go, free']
    dsimp only
    cases gobbled : gobbleWord flag (some c) (pos + c.utf8Size) text with
    | error e =>
      rw [gobbled] at inner
      obtain ⟨e', failed⟩ := inner
      exact ⟨e', by rw [failed]; rfl⟩
    | ok found =>
      obtain ⟨word, rest⟩ := found
      rw [gobbled] at inner
      dsimp only at inner
      rw [inner]
      by_cases ends : rest.head? = some '\n'
      · simp [ends, Parser.ok_bind]
      · simp [ends, Parser.ok_bind]

end Steps

section Lockstep

variable {source front text rest : List Char} {before : Option Char} {flag : Bool}
variable {last : Option TokenClass} {c : Char}

/-- Emitting the same text without a line end keeps both tokenizers aligned. -/
theorem Steps.emit (split : source = front ++ (text ++ rest)) (plain : '\n' ∉ text) (token : Token)
    (last' : Option TokenClass) (flag' : Bool) (here here' : List Char) :
    Steps source
      ((⟨here, before, Text.byteLength front, last, flag⟩ : Tokenizer).emit token text rest last' flag')
      ((⟨here', before, Text.byteLength (Text.toCrlf front), last, flag⟩ : Tokenizer).emit token text
        (Text.toCrlf rest) last' flag') := by
  have moved : source = (front ++ text) ++ rest := by rw [split, List.append_assoc]
  have size : Text.byteLength front + Text.byteLength text = Text.byteLength (front ++ text) := by simp
  have size' : Text.byteLength (Text.toCrlf front) + Text.byteLength text =
      Text.byteLength (Text.toCrlf (front ++ text)) := by
    rw [Text.toCrlf_append, Text.toCrlf_of_plain plain, Text.byteLength_append]
  rw [Tokenizer.emit, Tokenizer.emit]
  dsimp only
  rw [size, size']
  exact .same ⟨rfl, front, front ++ text, ⟨_, split.symm⟩, ⟨_, moved.symm⟩, rfl, rfl⟩ ⟨.aligned moved, rfl⟩

/-- An operator between blanks or line ends. -/
theorem Steps.agree_spacedOperator {token : Token} (split : source = front ++ (token.operatorText.toList ++ rest))
    (plain : '\n' ∉ token.operatorText.toList) :
    Agree (Steps source)
      ((⟨token.operatorText.toList ++ rest, before, Text.byteLength front, last, flag⟩ : Tokenizer).spacedOperator
        token)
      ((⟨Text.toCrlf (token.operatorText.toList ++ rest), before, Text.byteLength (Text.toCrlf front), last,
        flag⟩ : Tokenizer).spacedOperator token) := by
  have same : operatorHasRequiredWhitespace before (Text.toCrlf (token.operatorText.toList ++ rest))
      token.operatorText.length =
        operatorHasRequiredWhitespace before (token.operatorText.toList ++ rest) token.operatorText.length :=
    operatorHasRequiredWhitespace_toCrlf rfl String.length_toList plain
  rw [Tokenizer.spacedOperator, Tokenizer.spacedOperator]
  dsimp only
  rw [same]
  split
  · rw [Text.toCrlf_append, Text.toCrlf_of_plain plain, ← String.length_toList, List.take_left,
      List.drop_left, List.take_left, List.drop_left]
    exact .ok (Steps.emit split plain token _ _ _ _)
  · exact .error

/-- A bar starts an operator, or nothing. -/
theorem tokenizePipeOrParallel_eq {t : Tokenizer} (shape : t.rest = '|' :: rest) :
    (∃ e, startsWithOperator t.rest = none ∧ t.tokenizePipeOrParallel = .error e) ∨
      ∃ token boundary after, startsWithOperator t.rest = some (token, boundary) ∧
        t.rest = token.operatorText.toList ++ after ∧
        t.tokenizePipeOrParallel = match boundary with
          | .any => .ok (t.emitOther token token.operatorText.toList after)
          | .whitespaceRequired => t.spacedOperator token := by
  rw [tokenizePipeOrParallel]
  split
  · next after is => exact .inr ⟨.pipeStdout, .any, after, by rw [is]; rfl, is, rfl⟩
  · next after is => exact .inr ⟨.pipeAll, .any, after, by rw [is]; rfl, is, rfl⟩
  · next after is => exact .inr ⟨.pipeStderr, .any, after, by rw [is]; rfl, is, rfl⟩
  · next after is => exact .inr ⟨.parallelAll, .whitespaceRequired, _, by rw [is]; rfl, is, rfl⟩
  · next after is => exact .inr ⟨.parallelRace, .whitespaceRequired, _, by rw [is]; rfl, is, rfl⟩
  · next after noBar is =>
    refine .inr ⟨.jobOr, .any, _, ?_, is, rfl⟩
    rw [is]
    refine startsWithOperator_bars fun first => ?_
    obtain ⟨more, rfl⟩ := List.head?_eq_some_iff.mp first
    exact noBar more rfl
  · refine .inl ⟨_, ?_, rfl⟩
    rw [shape] at *
    unfold startsWithOperator
    split <;> simp_all

theorem Steps.agree_pipeOrParallel (split : source = front ++ '|' :: rest) :
    Agree (Steps source)
      (⟨'|' :: rest, before, Text.byteLength front, last, flag⟩ : Tokenizer).tokenizePipeOrParallel
      (⟨Text.toCrlf ('|' :: rest), before, Text.byteLength (Text.toCrlf front), last,
        flag⟩ : Tokenizer).tokenizePipeOrParallel := by
  have same := startsWithOperator_toCrlf ('|' :: rest)
  have bar : Text.toCrlf ('|' :: rest) = '|' :: Text.toCrlf rest := Text.toCrlf_cons (by decide) rest
  rcases @tokenizePipeOrParallel_eq rest ⟨'|' :: rest, before, Text.byteLength front, last, flag⟩ rfl with
    ⟨e, none, left⟩ | ⟨token, boundary, after, starts, text, left⟩
  all_goals
    rcases @tokenizePipeOrParallel_eq (Text.toCrlf rest) ⟨Text.toCrlf ('|' :: rest), before,
      Text.byteLength (Text.toCrlf front), last, flag⟩ bar with
      ⟨e', none', right⟩ | ⟨token', boundary', after', starts', text', right⟩
  · rw [left, right]
    exact .error
  · simp_all
  · simp_all
  · obtain ⟨rfl, rfl⟩ : token' = token ∧ boundary' = boundary := by
      rw [show startsWithOperator (Text.toCrlf ('|' :: rest)) = _ from starts',
        show startsWithOperator ('|' :: rest) = _ from starts] at same
      simpa using same
    obtain ⟨-, plain⟩ := startsWithOperator_split starts
    have whole : '|' :: rest = token'.operatorText.toList ++ after := text
    have behind : after' = Text.toCrlf after := by
      have cut : Text.toCrlf ('|' :: rest) = token'.operatorText.toList ++ after' := text'
      rw [whole, Text.toCrlf_append, Text.toCrlf_of_plain plain] at cut
      exact (List.append_cancel_left cut).symm
    rw [left, right]
    cases boundary' with
    | any =>
      rw [behind]
      exact .ok (Steps.emit (by rw [split, whole]) plain token' _ _ _ _)
    | whitespaceRequired =>
      dsimp only
      rw [whole]
      exact Steps.agree_spacedOperator (by rw [split, whole]) plain

theorem noFeed_of_delimiters {word : List Char} (delimiters : ∀ c ∈ word, isDelimiter c = false) :
    '\n' ∉ word := fun member => by
  simpa [isDelimiter] using delimiters _ member

/-- A regular word is the same, or swallows the carriage return behind it. -/
theorem Steps.agree_regularWord (split : source = front ++ c :: rest) (feed : c ≠ '\n') :
    Agree (Steps source)
      (⟨c :: rest, before, Text.byteLength front, last, flag⟩ : Tokenizer).tokenizeRegularWord
      (⟨Text.toCrlf (c :: rest), before, Text.byteLength (Text.toCrlf front), last,
        flag⟩ : Tokenizer).tokenizeRegularWord := by
  have both := @gobbleWord_toCrlf before (Text.byteLength front) (Text.byteLength (Text.toCrlf front)) flag
    (c :: rest)
  rw [tokenizeRegularWord, tokenizeRegularWord]
  dsimp only
  cases gobbled : gobbleWord flag before (Text.byteLength front) (c :: rest) with
  | error e =>
    rw [gobbled] at both
    obtain ⟨e', failed⟩ := both
    rw [failed]
    exact .error
  | ok found =>
    obtain ⟨word, after⟩ := found
    rw [gobbled] at both
    obtain ⟨cut, delimiters, -, -⟩ := gobbleWord_ok gobbled
    have plain := noFeed_of_delimiters delimiters
    have whole : source = front ++ (word ++ after) := by rw [split, cut]
    dsimp only at both
    rw [Parser.ok_bind]
    by_cases ends : after.head? = some '\n'
    · -- the line ends right behind the word
      rw [if_pos ends] at both
      rw [both, Parser.ok_bind]
      obtain ⟨more, rfl⟩ := List.head?_eq_some_iff.mp ends
      have nonempty : word ≠ [] := by
        rintro rfl
        exact feed (List.cons.inj cut).1
      have noValue : (if flag = true then tryParseValue (word ++ ['\r']) else none) = none := by
        have differs (text : List Char) (fresh : '\r' ∉ text) : word ++ ['\r'] ≠ text := by
          rintro rfl
          simp at fresh
        rw [tryParseValue, if_neg (differs _ (by decide)), if_neg (differs _ (by decide)), ite_self]
      have stops : source = (front ++ word) ++ '\n' :: more := by rw [whole, List.append_assoc]
      have size : Text.byteLength front + Text.byteLength word = Text.byteLength (front ++ word) := by simp
      have size' : Text.byteLength (Text.toCrlf front) + Text.byteLength (word ++ ['\r']) =
          Text.byteLength (Text.toCrlf (front ++ word)) + 1 := by
        have one : Text.byteLength ['\r'] = 1 := rfl
        rw [Text.toCrlf_append, Text.toCrlf_of_plain plain, Text.byteLength_append, Text.byteLength_append,
          one, Nat.add_assoc]
      dsimp only
      rw [if_neg nonempty, if_neg (show word ++ ['\r'] ≠ [] by simp), noValue]
      dsimp only [Tokenizer.emitOther, Tokenizer.emit]
      rw [size, size']
      generalize (if flag = true then tryParseValue word else none) = value
      cases value with
      | none =>
        refine .ok (.swallow ?_ ?_ (.swallowed stops))
        all_goals simp [Token.isRegular]
      | some value =>
        refine .ok (.swallow ?_ ?_ (.swallowed stops))
        all_goals simp [Token.isRegular]
    · rw [if_neg ends] at both
      rw [both, Parser.ok_bind]
      dsimp only
      generalize (if flag = true then tryParseValue word else none) = value
      split
      · exact .error
      · cases value with
        | none => exact .ok (Steps.emit whole plain _ _ _ _ _)
        | some value => exact .ok (Steps.emit whole plain _ _ _ _ _)

theorem Steps.agree_word (split : source = front ++ c :: rest) (feed : c ≠ '\n') (double : c ≠ '"')
    (single : c ≠ '\'') :
    Agree (Steps source) (⟨c :: rest, before, Text.byteLength front, last, flag⟩ : Tokenizer).tokenizeWord
      (⟨Text.toCrlf (c :: rest), before, Text.byteLength (Text.toCrlf front), last,
        flag⟩ : Tokenizer).tokenizeWord := by
  have regular := @Steps.agree_regularWord source front rest before flag last c split feed
  rw [tokenizeWord, tokenizeWord]
  dsimp only
  rw [idRefAt_toCrlf]
  cases atHead : idRefAt (c :: rest) with
  | some found =>
    obtain ⟨kind, number, digits⟩ := found
    obtain ⟨covered, -, -, -, isDigit⟩ := idRefAt_eq_some atHead
    have length : ((c :: rest).take (digits.length + 1)).length = digits.length + 1 := by
      rw [covered]
      cases kind <;> simp [IdKind.display]
    have plain : '\n' ∉ (c :: rest).take (digits.length + 1) := by
      rw [covered]
      intro member
      rcases List.mem_append.mp member with letter | digit
      · cases kind <;> simp [IdKind.display] at letter
      · simpa using isDigit _ digit
    have whole := (List.take_append_drop (digits.length + 1) (c :: rest)).symm
    have crlf : Text.toCrlf (c :: rest) = (c :: rest).take (digits.length + 1) ++
        Text.toCrlf ((c :: rest).drop (digits.length + 1)) := by
      conv => lhs; rw [whole, Text.toCrlf_append, Text.toCrlf_of_plain plain]
    dsimp only
    rw [crlf, List.take_left' length, List.drop_left' length]
    exact .ok (Steps.emit (by rw [split, List.take_append_drop]) plain _ _ _ _ _)
  | none =>
    rw [Text.toCrlf_cons feed] at regular ⊢
    have one : [c] ++ rest = c :: rest := rfl
    have plain : '\n' ∉ [c] := by simpa using Ne.symm feed
    dsimp only
    split
    · next body is => exact absurd (List.cons.inj is).1 double
    · next body is => exact absurd (List.cons.inj is).1 single
    · next d more _ _ is =>
      obtain ⟨rfl, rfl⟩ := List.cons.inj is
      split_ifs
      · exact .ok (Steps.emit split plain _ _ _ _ _)
      · exact .ok (Steps.emit split plain _ _ _ _ _)
      · exact regular
    · next is => exact absurd is (List.cons_ne_nil _ _)

theorem byteLength_eq_zero : Text.byteLength text = 0 ↔ text = [] := by
  cases text with
  | nil => simp
  | cons c text =>
    have size := c.utf8Size_pos
    simp only [Text.byteLength_cons, List.cons_ne_nil, iff_false]
    omega

/-- At a character that is no part of a line end, only the first characters behind it matter. -/
theorem nextToken_visible {t : Tokenizer} (shape : t.rest = c :: rest) (feed : c ≠ '\n') (back : c ≠ '\r') :
    t.nextToken =
      if isBlank c then
        .ok (t.emit (.whitespace (String.ofList (t.rest.takeWhile isBlank))) (t.rest.takeWhile isBlank)
          (t.rest.dropWhile isBlank) t.lastSignificant t.inModeParams)
      else if c = ':' ∧ (t.pos = 0 ∨ t.lastSignificant = none) then .ok (t.tokenizeColon rest)
      else if c = '(' then
        if t.lastSignificant = some .command then
          .ok (t.emit .modeParenOpen [c] rest (some .other) true)
        else .ok (t.emitOther .groupOpen [c] rest)
      else if c = ')' then
        if t.inModeParams then .ok (t.emit .modeParenClose [c] rest (some .other) false)
        else .ok (t.emitOther .groupClose [c] rest)
      else if c = '-' ∧ rest.head? = some '>' then t.spacedOperator .serialThen
      else if c = '~' ∧ rest.head? = some '>' then t.spacedOperator .serialAlways
      else if c = '&' ∧ rest.head? = some '&' then
        .ok (t.emitOther .jobAnd (t.rest.take 2) (t.rest.drop 2))
      else if c = '|' then t.tokenizePipeOrParallel
      else t.tokenizeWord := by
  rw [nextToken]
  split
  · next is => simp [is] at shape
  · next after is => exact absurd (List.cons.inj (is.symm.trans shape)).1.symm feed
  · next after is => exact absurd (List.cons.inj (is.symm.trans shape)).1.symm back
  · next d after _ _ is =>
    obtain ⟨rfl, rfl⟩ := List.cons.inj (is.symm.trans shape)
    rfl

theorem Steps.agree_visible (split : source = front ++ c :: rest) (feed : c ≠ '\n') (back : c ≠ '\r')
    (double : c ≠ '"') (single : c ≠ '\'') :
    Agree (Steps source) (⟨c :: rest, before, Text.byteLength front, last, flag⟩ : Tokenizer).nextToken
      (⟨Text.toCrlf (c :: rest), before, Text.byteLength (Text.toCrlf front), last,
        flag⟩ : Tokenizer).nextToken := by
  have plain : '\n' ∉ [c] := by simpa using Ne.symm feed
  have start : Text.byteLength (Text.toCrlf front) = 0 ↔ Text.byteLength front = 0 := by
    rw [byteLength_eq_zero, byteLength_eq_zero, Text.toCrlf_eq_nil]
  have second (d : Char) (feed : d ≠ '\n') (back : d ≠ '\r') :
      (Text.toCrlf rest).head? = some d ↔ rest.head? = some d := Text.head?_toCrlf_eq_some feed back
  have blanks := Text.takeWhile_toCrlf stopsAtLineEnd_isBlank (c :: rest)
  have behind := Text.dropWhile_toCrlf stopsAtLineEnd_isBlank (c :: rest)
  have bar := @Steps.agree_pipeOrParallel source front rest before flag last
  have word := @Steps.agree_word source front rest before flag last c split feed double single
  rw [nextToken_visible rfl feed back, nextToken_visible (Text.toCrlf_cons feed rest) feed back]
  dsimp only
  simp only [start, second '>' (by decide) (by decide), second '&' (by decide) (by decide)]
  split_ifs with blank colon opens command closes params then' always' and' isBar
  · rw [blanks, behind]
    refine .ok (Steps.emit (by rw [split, List.takeWhile_append_dropWhile]) ?_ _ _ _ _ _)
    intro member
    simpa [isBlank] using List.mem_takeWhile_imp member
  · obtain ⟨rfl, -⟩ := colon
    rw [tokenizeColon, tokenizeColon, Text.takeWhile_toCrlf stopsAtLineEnd_isIdentChar,
      Text.dropWhile_toCrlf stopsAtLineEnd_isIdentChar]
    dsimp only
    split_ifs
    · exact .ok (Steps.emit split plain _ _ _ _ _)
    · have name : source = front ++ ((':' :: rest.takeWhile isIdentChar) ++ rest.dropWhile isIdentChar) := by
        rw [split, List.cons_append, List.takeWhile_append_dropWhile]
      refine .ok (Steps.emit name ?_ _ _ _ _ _)
      intro member
      rcases List.mem_cons.mp member with is | inside
      · simp at is
      · simpa [isIdentChar] using List.mem_takeWhile_imp inside
  · exact .ok (Steps.emit split plain _ _ _ _ _)
  · exact .ok (Steps.emit split plain _ _ _ _ _)
  · exact .ok (Steps.emit split plain _ _ _ _ _)
  · exact .ok (Steps.emit split plain _ _ _ _ _)
  · obtain ⟨rfl, next⟩ := then'
    obtain ⟨more, rfl⟩ := List.head?_eq_some_iff.mp next
    exact @Steps.agree_spacedOperator source front more before flag last .serialThen split (by decide)
  · obtain ⟨rfl, next⟩ := always'
    obtain ⟨more, rfl⟩ := List.head?_eq_some_iff.mp next
    exact @Steps.agree_spacedOperator source front more before flag last .serialAlways split (by decide)
  · obtain ⟨rfl, next⟩ := and'
    obtain ⟨more, rfl⟩ := List.head?_eq_some_iff.mp next
    rw [Text.toCrlf_cons (by decide), Text.toCrlf_cons (by decide)]
    exact .ok (@Steps.emit source front ['&', '&'] more before flag last split (by decide) .jobAnd _ _ _ _)
  · subst isBar
    exact bar split
  · exact word

/-- Aligned tokenizers agree on the next token. -/
theorem nextToken_aligned {t u : Tokenizer} (clean : Unquoted source) (aligned : Aligned source t u) :
    Agree (Steps source) t.nextToken u.nextToken := by
  obtain ⟨lockstep, same⟩ := aligned
  cases lockstep with
  | swallowed => simp at same
  | @aligned front rest before last flag split =>
    cases rest with
    | nil =>
      exact .ok (.same ⟨rfl, front, front, ⟨_, split.symm⟩, ⟨_, split.symm⟩, rfl, rfl⟩ ⟨.aligned split, rfl⟩)
    | cons c rest =>
      by_cases feed : c = '\n'
      · subst feed
        have moved : source = (front ++ ['\n']) ++ rest := by simp [split]
        have size : Text.byteLength front + Text.byteLength ['\n'] = Text.byteLength (front ++ ['\n']) := by simp
        have size' : Text.byteLength (Text.toCrlf front) + Text.byteLength ['\r', '\n'] =
            Text.byteLength (Text.toCrlf (front ++ ['\n'])) := by
          simp
        rw [Text.toCrlf_lineFeed]
        dsimp only [nextToken, Tokenizer.emit]
        rw [size, size']
        exact .ok (.same ⟨rfl, front, front ++ ['\n'], ⟨_, split.symm⟩, ⟨_, moved.symm⟩, rfl, rfl⟩
          ⟨.aligned moved, rfl⟩)
      · have member : c ∈ source := by simp [split]
        exact Steps.agree_visible split feed (fun is => clean.2.2 (is ▸ member)) (fun is => clean.1 (is ▸ member))
          fun is => clean.2.1 (is ▸ member)

/-- Behind a swallowed carriage return both tokenizers read a line end and are aligned again. -/
theorem nextToken_swallowed {t u : Tokenizer} (lockstep : Lockstep source t u)
    (ahead : u.rest ≠ Text.toCrlf t.rest) :
    ∃ spanned spanned' t' u', t.nextToken = .ok (spanned, t') ∧ u.nextToken = .ok (spanned', u') ∧
      spanned.token = .newline ∧ Aligned source t' u' := by
  cases lockstep with
  | aligned => exact absurd rfl ahead
  | @swallowed front rest before before' last flag split =>
    have moved : source = (front ++ ['\n']) ++ rest := by simp [split]
    have size : Text.byteLength front + Text.byteLength ['\n'] = Text.byteLength (front ++ ['\n']) := by simp
    have size' : Text.byteLength (Text.toCrlf front) + 1 + Text.byteLength ['\n'] =
        Text.byteLength (Text.toCrlf (front ++ ['\n'])) := by
      have one : '\r'.utf8Size = 1 := rfl
      simp [Nat.add_assoc, one]
    refine ⟨_, _, _, _, rfl, rfl, rfl, ?_, rfl⟩
    dsimp only [Tokenizer.emit]
    rw [size, size']
    exact .aligned moved

end Lockstep

/-- No regular word ends directly in front of a line end. -/
def WordsClear (tokens : List Spanned) : Prop :=
  tokens.IsChain fun spanned next => ¬ (spanned.token.isRegular = true ∧ next.token = .newline)

section Loop

variable {source : List Char} {t u : Tokenizer}

theorem Lockstep.rest_nil (lockstep : Lockstep source t u) : t.rest = [] ↔ u.rest = [] := by
  cases lockstep with
  | aligned => exact Text.toCrlf_eq_nil.symm
  | swallowed => simp

/-- What the loops of both tokenizers return: lists that start with a line end together and, where no
regular word ends directly in front of a line end, the same tokens. -/
structure LoopsAgree (source : List Char) (t u : Tokenizer) (tokens tokens' : List Spanned) : Prop where
  feed : t.rest.head? = some '\n' → ∃ spanned ∈ tokens.head?, spanned.token = .newline
  same : u.rest = Text.toCrlf t.rest → WordsClear tokens → List.Forall₂ (SameToken source) tokens tokens'

theorem nextToken_lineFeed {t t' : Tokenizer} {spanned : Spanned} (feed : t.rest.head? = some '\n')
    (found : t.nextToken = .ok (spanned, t')) : spanned.token = .newline := by
  obtain ⟨rest, shape⟩ := List.head?_eq_some_iff.mp feed
  rw [nextToken, shape] at found
  simp only [Tokenizer.emit, Except.ok.injEq, Prod.mk.injEq] at found
  rw [← found.1]

/-- Both tokenizers fail on their texts, or both return token lists that agree. -/
theorem tokenizeLoop_lockstep {fuel fuel' : ℕ} (clean : Unquoted source) (lockstep : Lockstep source t u)
    (enough : t.rest.length < fuel) (enough' : u.rest.length < fuel') :
    Agree (LoopsAgree source t u) (tokenizeLoop fuel t) (tokenizeLoop fuel' u) := by
  induction fuel generalizing t u fuel' with
  | zero => exact absurd enough (Nat.not_lt_zero _)
  | succ fuel ih =>
    obtain ⟨fuel', rfl⟩ : ∃ n, fuel' = n + 1 := ⟨fuel' - 1, by omega⟩
    -- one step on both sides, then the rest of both loops
    have continue' {spanned spanned' : Spanned} {t' u' : Tokenizer} (more : t.rest ≠ [])
        (next : t.nextToken = .ok (spanned, t')) (next' : u.nextToken = .ok (spanned', u'))
        (after : Lockstep source t' u')
        (head : ∀ tokens tokens', LoopsAgree source t' u' tokens tokens' → u.rest = Text.toCrlf t.rest →
          WordsClear (spanned :: tokens) →
          List.Forall₂ (SameToken source) (spanned :: tokens) (spanned' :: tokens')) :
        Agree (LoopsAgree source t u) (tokenizeLoop (fuel + 1) t) (tokenizeLoop (fuel' + 1) u) := by
      obtain ⟨real, shorter⟩ := nextToken_moves next more
      obtain ⟨real', shorter'⟩ := nextToken_moves next' fun none => more (lockstep.rest_nil.mpr none)
      rw [tokenizeLoop, tokenizeLoop, next, next', Parser.ok_bind, Parser.ok_bind]
      dsimp only
      rw [if_neg real, if_neg real']
      refine (ih after (by omega) (by omega)).bind fun tokens tokens' agree => .ok ⟨fun feed => ?_, ?_⟩
      · exact ⟨spanned, by simp, nextToken_lineFeed feed next⟩
      · exact head tokens tokens' agree
    by_cases aligned : u.rest = Text.toCrlf t.rest
    · by_cases none : t.rest = []
      · have step := nextToken_aligned clean ⟨lockstep, aligned⟩
        rw [tokenizeLoop, tokenizeLoop, nextToken_nil none, nextToken_nil (lockstep.rest_nil.mp none)]
        rw [nextToken_nil none, nextToken_nil (lockstep.rest_nil.mp none)] at step
        refine .ok ⟨by simp [none], fun _ _ => .cons ?_ .nil⟩
        cases step with
        | ok steps =>
          cases steps with
          | same same _ => exact same
          | swallow regular => simp [Token.isRegular] at regular
      · rcases (nextToken_aligned clean ⟨lockstep, aligned⟩).elim with
          ⟨e, e', next, next'⟩ | ⟨⟨spanned, t'⟩, ⟨spanned', u'⟩, next, next', step⟩
        · rw [tokenizeLoop, tokenizeLoop, next, next']
          exact .error
        · cases step with
          | same same after =>
            refine continue' none next next' after.1 fun tokens tokens' agree _ clear => ?_
            exact .cons same (agree.same after.2 clear.tail)
          | swallow regular feed after =>
            refine continue' none next next' after fun tokens tokens' agree _ clear => ?_
            obtain ⟨following, first, isFeed⟩ := agree.feed feed
            exact absurd ⟨regular, isFeed⟩ ((List.isChain_cons.mp clear).1 following first)
    · obtain ⟨spanned, spanned', t', u', next, next', feed, after⟩ := nextToken_swallowed lockstep aligned
      refine continue' ?_ next next' after.1 fun _ _ _ same => absurd same aligned
      intro none
      exact aligned (by rw [none, lockstep.rest_nil.mp none]; rfl)

end Loop

end CueShell
