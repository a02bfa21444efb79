import CueShell.Proofs.CommentScans
import CueShell.Proofs.PlainLines
import CueShell.Proofs.TokenSpans

/-! # Texts that can be read

Which texts the tokenizer accepts behind a word of the same line: quotes are closed, a bar is part of an
operator, and an operator that asks for blanks has them. A single quote counts only where no word has
begun.
-/

namespace CueShell

open Tokenizer

/-- A text that can be read where `inWord` tells that a word has begun, and `spaced` that the character in
front is white. -/
inductive Readable : Bool → Bool → List Char → Prop
  | nil {inWord spaced : Bool} : Readable inWord spaced []
  | gap {inWord spaced : Bool} {c : Char} {rest : List Char} : (isBlank c ∨ c = '(' ∨ c = ')') →
      Readable false (isBlank c) rest → Readable inWord spaced (c :: rest)
  | double {inWord spaced : Bool} {body content text rest : List Char} :
      doubleQuoted body = .ok (content, text, rest) → Readable false false rest →
      Readable inWord spaced ('"' :: body)
  | single {spaced : Bool} {body content rest : List Char} : singleQuoted body = some (content, rest) →
      Readable false false rest → Readable false spaced ('\'' :: body)
  | operator {inWord spaced : Bool} {text : List Char} {token : Token} {boundary : OperatorBoundary} :
      startsWithOperator text = some (token, boundary) →
      (boundary = .whitespaceRequired →
        spaced ∧ (text.drop token.operatorText.length).head?.all isOperatorBoundary) →
      Readable false false (text.drop token.operatorText.length) → Readable inWord spaced text
  | idRef {spaced : Bool} {text digits : List Char} {kind : IdKind} {number : ℕ} :
      idRefAt text = some (kind, number, digits) → Readable false false (text.drop (digits.length + 1)) →
      Readable false spaced text
  | letter {inWord spaced : Bool} {c : Char} {rest : List Char} : isDelimiter c = false →
      startsWithOperator (c :: rest) = none →
      (inWord = false → c ≠ '\'' ∧ idRefAt (c :: rest) = none) →
      Readable true (isOperatorBoundary c) rest → Readable inWord spaced (c :: rest)

section Heads

variable {inWord spaced : Bool} {c : Char} {text rest body digits : List Char}
variable {token : Token} {boundary : OperatorBoundary} {kind : IdKind} {number : ℕ}

/-- What an operator starts with. -/
theorem startsWithOperator_first (starts : startsWithOperator (c :: rest) = some (token, boundary)) :
    c ∈ ['|', '-', '~', '&'] := by
  unfold startsWithOperator at starts
  split at starts <;> simp_all

theorem tryIdKind_first (found : idRefAt (c :: rest) = some (kind, number, digits)) : c = 'J' ∨ c = 'C' := by
  obtain ⟨covered, -⟩ := idRefAt_eq_some found
  rw [List.take_succ_cons] at covered
  cases kind
  · exact .inl (List.cons.inj covered).1
  · exact .inr (List.cons.inj covered).1

theorem readable_gap (gap : isBlank c ∨ c = '(' ∨ c = ')') :
    Readable inWord spaced (c :: rest) ↔ Readable false (isBlank c) rest := by
  refine ⟨fun readable => ?_, .gap gap⟩
  have first : c = ' ' ∨ c = '\t' ∨ c = '(' ∨ c = ')' := by
    simpa [isBlank, or_assoc] using gap
  cases readable with
  | gap _ readable => exact readable
  | double => simp [isBlank] at gap
  | single => simp [isBlank] at gap
  | operator starts =>
    have member := startsWithOperator_first starts
    rcases first with rfl | rfl | rfl | rfl <;> simp at member
  | idRef found =>
    have member := tryIdKind_first found
    rcases first with rfl | rfl | rfl | rfl <;> simp at member
  | letter plain => rcases first with rfl | rfl | rfl | rfl <;> simp [isDelimiter] at plain

theorem readable_double : Readable inWord spaced ('"' :: body) ↔
    ∃ content text rest, doubleQuoted body = .ok (content, text, rest) ∧ Readable false false rest := by
  constructor
  · intro readable
    cases readable with
    | gap gap => simp [isBlank] at gap
    | double quoted readable => exact ⟨_, _, _, quoted, readable⟩
    | operator starts => simpa using startsWithOperator_first starts
    | idRef found => simpa using tryIdKind_first found
    | letter plain => simp [isDelimiter] at plain
  · rintro ⟨content, text, rest, quoted, readable⟩
    exact .double quoted readable

theorem readable_single : Readable false spaced ('\'' :: body) ↔
    ∃ content rest, singleQuoted body = some (content, rest) ∧ Readable false false rest := by
  constructor
  · intro readable
    cases readable with
    | gap gap => simp [isBlank] at gap
    | single quoted readable => exact ⟨_, _, quoted, readable⟩
    | operator starts => simpa using startsWithOperator_first starts
    | idRef found => simpa using tryIdKind_first found
    | letter _ _ fresh => exact absurd rfl (fresh rfl).1
  · rintro ⟨content, rest, quoted, readable⟩
    exact .single quoted readable

theorem readable_operator (starts : startsWithOperator text = some (token, boundary)) :
    Readable inWord spaced text ↔
      (boundary = .whitespaceRequired →
        spaced ∧ (text.drop token.operatorText.length).head?.all isOperatorBoundary) ∧
      Readable false false (text.drop token.operatorText.length) := by
  refine ⟨fun readable => ?_, fun ⟨roomy, readable⟩ => .operator starts roomy readable⟩
  cases readable with
  | nil => simp [startsWithOperator] at starts
  | gap gap =>
    have member := startsWithOperator_first starts
    simp only [isBlank, Bool.or_eq_true, beq_iff_eq, or_assoc] at gap
    rcases gap with rfl | rfl | rfl | rfl <;> simp at member
  | double => simpa using startsWithOperator_first starts
  | single => simpa using startsWithOperator_first starts
  | operator found roomy readable =>
    obtain ⟨rfl, rfl⟩ := Prod.mk.inj (Option.some.inj (found.symm.trans starts))
    exact ⟨roomy, readable⟩
  | idRef found =>
    cases text with
    | nil => simp [startsWithOperator] at starts
    | cons c rest =>
      have member := startsWithOperator_first starts
      rcases tryIdKind_first found with rfl | rfl <;> simp at member
  | letter _ none => simp [none] at starts

theorem not_readable_bar (none : startsWithOperator ('|' :: rest) = none) :
    ¬ Readable inWord spaced ('|' :: rest) := by
  intro readable
  cases readable with
  | gap gap => simp [isBlank] at gap
  | operator starts => simp [none] at starts
  | idRef found => simpa using tryIdKind_first found
  | letter plain => simp [isDelimiter] at plain

theorem readable_idRef (found : idRefAt text = some (kind, number, digits)) :
    Readable false spaced text ↔ Readable false false (text.drop (digits.length + 1)) := by
  refine ⟨fun readable => ?_, .idRef found⟩
  cases readable with
  | nil => simp [idRefAt, tryIdKind] at found
  | gap gap =>
    simp only [isBlank, Bool.or_eq_true, beq_iff_eq, or_assoc] at gap
    rcases tryIdKind_first found with rfl | rfl <;> simp at gap
  | double => simpa using tryIdKind_first found
  | single => simpa using tryIdKind_first found
  | operator starts =>
    cases text with
    | nil => simp [startsWithOperator] at starts
    | cons c rest =>
      have member := startsWithOperator_first starts
      rcases tryIdKind_first found with rfl | rfl <;> simp at member
  | idRef same readable =>
    obtain ⟨-, -, rfl⟩ : _ ∧ _ ∧ _ := by simpa using same.symm.trans found
    exact readable
  | letter _ _ fresh => simp [(fresh rfl).2] at found

theorem readable_letter (plain : isDelimiter c = false) (none : startsWithOperator (c :: rest) = none)
    (fresh : inWord = false → c ≠ '\'' ∧ idRefAt (c :: rest) = Option.none) :
    Readable inWord spaced (c :: rest) ↔ Readable true (isOperatorBoundary c) rest := by
  refine ⟨fun readable => ?_, .letter plain none fresh⟩
  cases readable with
  | gap gap =>
    simp only [isBlank, Bool.or_eq_true, beq_iff_eq, or_assoc] at gap
    rcases gap with rfl | rfl | rfl | rfl <;> simp [isDelimiter] at plain
  | double => simp [isDelimiter] at plain
  | single => exact absurd rfl (fresh rfl).1
  | operator starts => simp [none] at starts
  | idRef found => simp [(fresh rfl).2] at found
  | letter _ _ _ readable => exact readable

/-- Between words only the blank in front of an operator matters. -/
theorem readable_blanks (text : List Char) :
    Readable false spaced text ↔
      Readable false ((text.takeWhile isBlank).getLast?.elim spaced fun _ => true) (text.dropWhile isBlank) := by
  induction text generalizing spaced with
  | nil => exact Iff.rfl
  | cons c rest ih =>
    cases blank : isBlank c with
    | false => simp [blank]
    | true =>
      rw [readable_gap (.inl blank), ih, List.takeWhile_cons_of_pos blank, List.dropWhile_cons_of_pos blank,
        blank]
      cases rest.takeWhile isBlank with
      | nil => rfl
      | cons first more =>
        rw [List.getLast?_cons_cons, List.getLast?_eq_some_getLast (List.cons_ne_nil first more)]
        rfl

/-- A word that has begun ends at a delimiter. -/
theorem readable_delimiter (delimiter : isDelimiter c = true) :
    Readable true spaced (c :: rest) ↔ Readable false spaced (c :: rest) := by
  constructor
  · intro readable
    cases readable with
    | gap gap readable => exact .gap gap readable
    | double quoted readable => exact .double quoted readable
    | operator starts roomy readable => exact .operator starts roomy readable
    | letter plain => simp [plain] at delimiter
  · intro readable
    cases readable with
    | gap gap readable => exact .gap gap readable
    | double quoted readable => exact .double quoted readable
    | single => simp [isDelimiter] at delimiter
    | operator starts roomy readable => exact .operator starts roomy readable
    | idRef found => rcases tryIdKind_first found with rfl | rfl <;> simp [isDelimiter] at delimiter
    | letter plain => simp [plain] at delimiter

/-- An operator inside a word is read if it has the blanks that it asks for. -/
theorem gobbleWord_operator {before : Option Char} (pos : ℕ) (plain : isDelimiter c = false)
    (starts : startsWithOperator (c :: rest) = some (token, boundary)) :
    (∃ word after, gobbleWord false before pos (c :: rest) = .ok (word, after) ∧
        Readable false ((word.getLast?.or before).all isOperatorBoundary) after) ↔
      Readable true (before.all isOperatorBoundary) (c :: rest) := by
  rw [readable_operator starts]
  by_cases cramped : boundary = .whitespaceRequired ∧
      operatorHasRequiredWhitespace before (c :: rest) token.operatorText.length = false
  · obtain ⟨required, missing⟩ := cramped
    have fails : gobbleWord false before pos (c :: rest) =
        .error (missingOperatorWhitespaceError pos token.operatorText (c :: rest)) := by
      simp [gobbleWord, plain, starts, required, missing]
    rw [operatorHasRequiredWhitespace, Bool.and_eq_false_iff] at missing
    constructor
    · rintro ⟨word, after, found, -⟩
      simp [fails] at found
    · rintro ⟨roomy, -⟩
      obtain ⟨spaced, next⟩ := roomy required
      rcases missing with missing | missing <;> simp_all
  · have stops : gobbleWord false before pos (c :: rest) = .ok ([], c :: rest) := by
      simp only [gobbleWord, plain, Bool.false_and, Bool.or_self, Bool.false_eq_true, if_false, starts]
      rw [if_neg cramped]
    rw [stops, ← @readable_operator false _ _ _ _ starts]
    simp

/-- Inside a word everything up to its end is passed over. -/
theorem readable_word (before : Option Char) (pos : ℕ) (text : List Char) :
    (∃ word after, gobbleWord false before pos text = .ok (word, after) ∧
        Readable false ((word.getLast?.or before).all isOperatorBoundary) after) ↔
      Readable true (before.all isOperatorBoundary) text := by
  induction text generalizing before pos with
  | nil => simp [gobbleWord, Readable.nil]
  | cons c text ih =>
    cases delimiter : isDelimiter c with
    | true =>
      have stops : gobbleWord false before pos (c :: text) = .ok ([], c :: text) := by
        simp [gobbleWord, delimiter]
      rw [stops, readable_delimiter delimiter]
      simp
    | false =>
      rcases starts : startsWithOperator (c :: text) with _ | ⟨token, boundary⟩
      · have goes : gobbleWord false before pos (c :: text) =
            (gobbleWord false (some c) (pos + c.utf8Size) text >>= fun found =>
              .ok (c :: found.1, found.2)) := by
          simp [gobbleWord, delimiter, starts]
        have same : (some c : Option Char).all isOperatorBoundary = isOperatorBoundary c := rfl
        rw [goes, readable_letter delimiter starts (by simp), ← same, ← ih (some c) (pos + c.utf8Size)]
        constructor
        · rintro ⟨word, after, found, readable⟩
          obtain ⟨⟨more, after'⟩, inner, done⟩ := Parser.bind_eq_ok.mp found
          obtain ⟨rfl, rfl⟩ := Prod.mk.inj (Except.ok.inj done)
          refine ⟨more, after', inner, ?_⟩
          cases more <;> simpa [List.getLast?_cons] using readable
        · rintro ⟨word, after, found, readable⟩
          refine ⟨c :: word, after, by rw [found]; rfl, ?_⟩
          cases word <;> simpa [List.getLast?_cons] using readable
      · exact gobbleWord_operator pos delimiter starts

end Heads

section Steps

variable {t t' : Tokenizer} {spanned : Spanned} {fuel : ℕ}

/-- A tokenizer behind a word or an operator. -/
structure Tokenizer.Amid (t : Tokenizer) : Prop where
  started : t.pos ≠ 0
  significant : t.lastSignificant = some .other
  outside : t.inModeParams = false

theorem Tokenizer.Amid.emit (amid : t.Amid) (token : Token) {text rest : List Char} :
    (t.emitOther token text rest).2.Amid where
  started := fun none => amid.started (Nat.add_eq_zero_iff.mp none).1
  significant := rfl
  outside := amid.outside

theorem tokenizeLoop_accepts (next : t.nextToken = .ok (spanned, t')) (real : spanned.token ≠ .eof) :
    (∃ tokens, tokenizeLoop (fuel + 1) t = .ok tokens) ↔ ∃ tokens, tokenizeLoop fuel t' = .ok tokens := by
  rw [tokenizeLoop, next, Parser.ok_bind]
  dsimp only
  rw [if_neg real]
  constructor
  · rintro ⟨tokens, found⟩
    obtain ⟨others, loop, -⟩ := Parser.bind_eq_ok.mp found
    exact ⟨others, loop⟩
  · rintro ⟨tokens, loop⟩
    rw [loop]
    exact ⟨_, rfl⟩

theorem tokenizeLoop_rejects {e : TokenizeError} (next : t.nextToken = .error e) :
    ¬ ∃ tokens, tokenizeLoop (fuel + 1) t = .ok tokens := by
  rintro ⟨tokens, found⟩
  rw [tokenizeLoop, next] at found
  cases found

variable {c : Char} {rest : List Char} {token : Token} {boundary : OperatorBoundary}

/-- The tokenizer reads an operator wherever the text starts with one. -/
theorem nextToken_operator (starts : startsWithOperator t.rest = some (token, boundary)) :
    t.nextToken =
      if boundary = .whitespaceRequired ∧
          operatorHasRequiredWhitespace t.before t.rest token.operatorText.length = false then
        .error (missingOperatorWhitespaceError t.pos token.operatorText t.rest)
      else .ok (t.emitOther token (t.rest.take token.operatorText.length)
        (t.rest.drop token.operatorText.length)) := by
  have roomy (token : Token) : t.spacedOperator token =
      if OperatorBoundary.whitespaceRequired = .whitespaceRequired ∧
          operatorHasRequiredWhitespace t.before t.rest token.operatorText.length = false then
        .error (missingOperatorWhitespaceError t.pos token.operatorText t.rest)
      else .ok (t.emitOther token (t.rest.take token.operatorText.length)
        (t.rest.drop token.operatorText.length)) := by
    rw [spacedOperator]
    cases operatorHasRequiredWhitespace t.before t.rest token.operatorText.length <;> simp
  have bar {text : List Char} (shape : t.rest = '|' :: text) := nextToken_bar shape
  generalize is : t.rest = text at starts
  unfold startsWithOperator at starts
  split at starts
  case h_10 => simp at starts
  all_goals obtain ⟨rfl, rfl⟩ := Prod.mk.inj (Option.some.inj starts)
  · rw [bar is, tokenizePipeOrParallel, is]
    rfl
  · rw [bar is, tokenizePipeOrParallel, is]
    rfl
  · rw [bar is, ← is, ← roomy, tokenizePipeOrParallel, is]
    rfl
  · rw [bar is, ← is, ← roomy, tokenizePipeOrParallel, is]
    rfl
  · rw [← is, ← roomy]
    simp [nextToken, is, isBlank]
  · rw [← is, ← roomy]
    simp [nextToken, is, isBlank]
  · rw [bar is, tokenizePipeOrParallel, is]
    rfl
  · simp [nextToken, is, isBlank]
    rfl
  · next all =>
    rw [bar is, tokenizePipeOrParallel, is]
    split
    · next found => simp at found
    · next found => simp at found
    · next found => simp at found
    · next found => exact (all _ (by simpa using found)).elim
    · next found => simp at found
    · next found =>
      obtain rfl : _ = _ := by simpa using found
      rfl
    · next other => exact (other _ rfl).elim

/-- Where neither a delimiter nor an operator stands, a word begins. -/
theorem nextToken_plain_char (amid : t.Amid) (shape : t.rest = c :: rest) (line : '\n' ∉ t.rest)
    (plain : isDelimiter c = false) (none : startsWithOperator (c :: rest) = Option.none) :
    t.nextToken = t.tokenizeWord := by
  have first {d : Char} (delimiter : isDelimiter d = true) : c ≠ d := by
    rintro rfl
    simp [plain] at delimiter
  have free := startsWithOperator_eq_none.mp none
  have second : ∀ d, [c, d] ∈ operatorTexts → rest.head? ≠ some d := by
    intro d member next
    obtain ⟨after, rfl⟩ := List.head?_eq_some_iff.mp next
    exact free _ member ⟨after, rfl⟩
  rw [nextToken]
  split
  · next empty => simp [empty] at shape
  · next after is => exact absurd (List.cons.inj (is.symm.trans shape)).1.symm (first rfl)
  · next after is => exact absurd (by simp [is]) line
  · next d after _ _ is =>
    obtain ⟨rfl, rfl⟩ := List.cons.inj (is.symm.trans shape)
    have blank : d ≠ ' ' := first rfl
    have tab : d ≠ '\t' := first rfl
    rw [if_neg (by simp [isBlank, blank, tab]),
      if_neg (by simp [amid.started, amid.significant]), if_neg (first rfl), if_neg (first rfl), if_neg, if_neg,
      if_neg, if_neg (first rfl)]
    · rintro ⟨rfl, next⟩
      exact second '&' (by decide) next
    · rintro ⟨rfl, next⟩
      exact second '>' (by decide) next
    · rintro ⟨rfl, next⟩
      exact second '>' (by decide) next

theorem isOperatorBoundary_of_isBlank (blank : isBlank c = true) : isOperatorBoundary c = true := by
  simp only [isBlank, Bool.or_eq_true] at blank
  rcases blank with blank | blank <;> simp [isOperatorBoundary, blank]

theorem not_isOperatorBoundary_of_isDigit (digit : c.isDigit = true) : isOperatorBoundary c = false := by
  by_contra white
  simp only [isOperatorBoundary, Bool.not_eq_false, Bool.or_eq_true, beq_iff_eq] at white
  rcases white with ((rfl | rfl) | rfl) | rfl <;> simp at digit

/-- An operator ends with a sign that is no white space. -/
theorem startsWithOperator_last {text : List Char} (starts : startsWithOperator text = some (token, boundary)) :
    (∃ sign, (text.take token.operatorText.length).getLast? = some sign ∧ isOperatorBoundary sign = false) ∧
      token ≠ .eof := by
  unfold startsWithOperator at starts
  split at starts
  case h_10 => simp at starts
  all_goals
    obtain ⟨rfl, rfl⟩ := Prod.mk.inj (Option.some.inj starts)
    exact ⟨⟨_, rfl, rfl⟩, by simp⟩

/-- A bar that starts no operator. -/
theorem nextToken_bare_bar (shape : t.rest = '|' :: rest) (none : startsWithOperator ('|' :: rest) = Option.none) :
    ∃ e, t.nextToken = .error e := by
  rw [startsWithOperator_eq_none] at none
  rw [nextToken_bar shape, tokenizePipeOrParallel, shape]
  split
  · next is => exact absurd ⟨_, is.symm⟩ (none ['|', '>'] (by decide))
  · next is => exact absurd ⟨_, is.symm⟩ (none ['|', '&', '>'] (by decide))
  · next is => exact absurd ⟨_, is.symm⟩ (none ['|', '!', '>'] (by decide))
  · next is => exact absurd ⟨_, is.symm⟩ (none ['|', '|', '|'] (by decide))
  · next is => exact absurd ⟨_, is.symm⟩ (none ['|', '?', '|'] (by decide))
  · next is => exact absurd ⟨_, is.symm⟩ (none ['|', '|'] (by decide))
  · exact ⟨_, rfl⟩

theorem doubleQuoted_last {body content text rest : List Char}
    (found : doubleQuoted body = .ok (content, text, rest)) : text.getLast? = some '"' := by
  fun_induction doubleQuoted body generalizing content text rest with
  | case1 => simp at found
  | case2 =>
    obtain ⟨-, rfl, -⟩ : _ ∧ _ ∧ _ := by simpa using found
    rfl
  | case3 => simp at found
  | case4 c body ih =>
    obtain ⟨⟨content, text, rest⟩, inner, done⟩ := Parser.bind_eq_ok.mp found
    obtain ⟨-, rfl, -⟩ : _ ∧ _ ∧ _ := by simpa using done
    simp [List.getLast?_cons, ih inner]
  | case5 c body quote slash escape ih =>
    obtain ⟨⟨content, text, rest⟩, inner, done⟩ := Parser.bind_eq_ok.mp found
    obtain ⟨-, rfl, -⟩ : _ ∧ _ ∧ _ := by simpa using done
    simp [List.getLast?_cons, ih inner]

end Steps

section Loop

variable {t : Tokenizer} {fuel : ℕ} {c : Char} {text rest : List Char} {token : Token}
variable {boundary : OperatorBoundary}

/-- With this fuel the tokenizer accepts exactly the readable lines. -/
def AcceptsReadable (fuel : ℕ) : Prop :=
  ∀ {t : Tokenizer}, t.Amid → '\n' ∉ t.rest → t.rest.length < fuel →
    ((∃ tokens, tokenizeLoop fuel t = .ok tokens) ↔ Readable false (t.before.all isOperatorBoundary) t.rest)

/-- A token is read, and what follows it must be readable. -/
theorem AcceptsReadable.emitted (less : AcceptsReadable fuel) (amid : t.Amid) (line : '\n' ∉ t.rest)
    (enough : t.rest.length < fuel + 1) (split : t.rest = text ++ rest) (nonempty : text ≠ [])
    (real : token ≠ .eof) (next : t.nextToken = .ok (t.emitOther token text rest)) :
    (∃ tokens, tokenizeLoop (fuel + 1) t = .ok tokens) ↔
      Readable false ((text.getLast?.or t.before).all isOperatorBoundary) rest := by
  have size := List.length_pos_of_ne_nil nonempty
  rw [split, List.length_append] at enough
  rw [split] at line
  rw [tokenizeLoop_accepts next real]
  exact less (amid.emit token) (fun member => line (List.mem_append_right _ member))
    (show rest.length < fuel by omega)

theorem AcceptsReadable.blanks (less : AcceptsReadable fuel) (amid : t.Amid) (line : '\n' ∉ t.rest)
    (enough : t.rest.length < fuel + 1) (shape : t.rest = c :: rest) (blank : isBlank c = true) :
    (∃ tokens, tokenizeLoop (fuel + 1) t = .ok tokens) ↔
      Readable false (t.before.all isOperatorBoundary) t.rest := by
  have filled : t.rest.takeWhile isBlank ≠ [] := by simp [shape, blank]
  have read := nextToken_blank shape blank
  rw [amid.significant] at read
  have white := List.mem_takeWhile_imp (List.getLast_mem filled)
  rw [less.emitted amid line enough List.takeWhile_append_dropWhile.symm filled (by simp) read,
    @readable_blanks (t.before.all isOperatorBoundary) t.rest, List.getLast?_eq_some_getLast filled,
    Option.some_or, Option.all_some, isOperatorBoundary_of_isBlank white, Option.elim_some]

theorem AcceptsReadable.double (less : AcceptsReadable fuel) (amid : t.Amid) (line : '\n' ∉ t.rest)
    (enough : t.rest.length < fuel + 1) (shape : t.rest = '"' :: rest) :
    (∃ tokens, tokenizeLoop (fuel + 1) t = .ok tokens) ↔
      Readable false (t.before.all isOperatorBoundary) ('"' :: rest) := by
  rw [readable_double]
  rcases quoted : doubleQuoted rest with kind | ⟨content, text, after⟩
  · have fails : ∃ e, t.nextToken = .error e := by
      rw [nextToken_double shape, tokenizeQuotedString, quoted]
      cases kind <;> exact ⟨_, rfl⟩
    obtain ⟨e, fails⟩ := fails
    exact iff_of_false (tokenizeLoop_rejects fails) (by simp)
  · have read : t.nextToken = .ok (t.emitOther (.word (String.ofList content)) ('"' :: text) after) := by
      rw [nextToken_double shape, tokenizeQuotedString, quoted]
    have split : t.rest = '"' :: text ++ after := by rw [shape, (doubleQuoted_ok quoted).1, List.cons_append]
    rw [less.emitted amid line enough split (by simp) (by simp) read]
    simp [List.getLast?_cons, doubleQuoted_last quoted, isOperatorBoundary]

theorem AcceptsReadable.single (less : AcceptsReadable fuel) (amid : t.Amid) (line : '\n' ∉ t.rest)
    (enough : t.rest.length < fuel + 1) (shape : t.rest = '\'' :: rest) :
    (∃ tokens, tokenizeLoop (fuel + 1) t = .ok tokens) ↔
      Readable false (t.before.all isOperatorBoundary) ('\'' :: rest) := by
  rw [readable_single]
  rcases quoted : singleQuoted rest with _ | ⟨content, after⟩
  · have fails : t.nextToken = .error ⟨t.pos, "unterminated single-quoted string"⟩ := by
      rw [nextToken_single shape, tokenizeSingleQuotedString, quoted]
    exact iff_of_false (tokenizeLoop_rejects fails) (by simp)
  · have read : t.nextToken =
        .ok (t.emitOther (.word (String.ofList content)) ('\'' :: content ++ ['\'']) after) := by
      rw [nextToken_single shape, tokenizeSingleQuotedString, quoted]
    have last : ('\'' :: content ++ ['\'']).getLast? = some '\'' := List.getLast?_concat
    have split : t.rest = '\'' :: content ++ ['\''] ++ after := by simp [shape, singleQuoted_ok quoted]
    rw [less.emitted amid line enough split (by simp) (by simp) read, last]
    simp [isOperatorBoundary]

theorem AcceptsReadable.operator (less : AcceptsReadable fuel) (amid : t.Amid) (line : '\n' ∉ t.rest)
    (enough : t.rest.length < fuel + 1) (starts : startsWithOperator t.rest = some (token, boundary)) :
    (∃ tokens, tokenizeLoop (fuel + 1) t = .ok tokens) ↔
      Readable false (t.before.all isOperatorBoundary) t.rest := by
  have step := nextToken_operator starts
  obtain ⟨⟨sign, last, dark⟩, real⟩ := startsWithOperator_last starts
  rw [readable_operator starts]
  split_ifs at step with cramped
  · refine iff_of_false (tokenizeLoop_rejects step) ?_
    rintro ⟨roomy, -⟩
    obtain ⟨required, missing⟩ := cramped
    obtain ⟨spaced, next⟩ := roomy required
    rw [operatorHasRequiredWhitespace, spaced, next] at missing
    simp at missing
  · have filled : t.rest.take token.operatorText.length ≠ [] := by
      rintro none
      simp [none] at last
    rw [less.emitted amid line enough (List.take_append_drop _ _).symm filled real step, last, Option.some_or,
      Option.all_some, dark]
    refine ⟨fun readable => ⟨fun required => ?_, readable⟩, fun both => both.2⟩
    have roomy := Bool.eq_true_of_not_eq_false fun missing => cramped ⟨required, missing⟩
    rwa [operatorHasRequiredWhitespace, Bool.and_eq_true] at roomy

/-- An ID reference, or a regular word. -/
theorem AcceptsReadable.word (less : AcceptsReadable fuel) (amid : t.Amid) (line : '\n' ∉ t.rest)
    (enough : t.rest.length < fuel + 1) (shape : t.rest = c :: rest) (plain : isDelimiter c = false)
    (starts : startsWithOperator (c :: rest) = none) (single : c ≠ '\'') :
    (∃ tokens, tokenizeLoop (fuel + 1) t = .ok tokens) ↔
      Readable false (t.before.all isOperatorBoundary) (c :: rest) := by
  have word := nextToken_plain_char amid shape line plain starts
  rcases atHead : idRefAt (c :: rest) with _ | ⟨kind, number, digits⟩
  · have double : c ≠ '"' := by
      rintro rfl
      simp [isDelimiter] at plain
    have regular : t.nextToken = t.tokenizeRegularWord := by
      simp [word, tokenizeWord, shape, atHead, amid.outside]
    have begun (spaced : Bool) : Readable false spaced (c :: rest) ↔ Readable true spaced (c :: rest) := by
      rw [readable_letter plain starts fun _ => ⟨single, atHead⟩, readable_letter plain starts (by simp)]
    rw [begun, ← readable_word t.before t.pos]
    rcases gobbled : gobbleWord false t.before t.pos (c :: rest) with e | ⟨run, after⟩
    · have fails : t.nextToken = .error e := by
        rw [regular, tokenizeRegularWord, amid.outside, shape, gobbled]
        rfl
      exact iff_of_false (tokenizeLoop_rejects fails) (by simp)
    · have filled : run ≠ [] := by
        rintro rfl
        rw [gobbleWord] at gobbled
        simp only [plain, Bool.false_and, Bool.or_self, Bool.false_eq_true, if_false, starts] at gobbled
        obtain ⟨⟨more, after'⟩, -, done⟩ := Parser.bind_eq_ok.mp gobbled
        simp at done
      have read : t.nextToken = .ok (t.emitOther (.word (String.ofList run)) run after) := by
        rw [regular, tokenizeRegularWord, amid.outside, shape, gobbled, Parser.ok_bind]
        simp [filled]
      rw [less.emitted amid line enough (shape.trans (gobbleWord_ok gobbled).1) filled (by simp) read]
      simp
  · have read : t.nextToken = .ok (t.emitOther (.idRef kind number)
        ((c :: rest).take (digits.length + 1)) ((c :: rest).drop (digits.length + 1))) := by
      rw [word, tokenizeWord, shape, atHead]
    obtain ⟨covered, -, -, filled, isDigit⟩ := idRefAt_eq_some atHead
    have split : t.rest = (c :: rest).take (digits.length + 1) ++ (c :: rest).drop (digits.length + 1) := by
      rw [shape, List.take_append_drop]
    rw [less.emitted amid line enough split (by simp) (by simp) read, readable_idRef atHead, covered,
      List.getLast?_append, List.getLast?_eq_some_getLast filled]
    have dark := not_isOperatorBoundary_of_isDigit (isDigit _ (List.getLast_mem filled))
    simp [dark]

/-- Behind a word the tokenizer accepts exactly the readable lines. -/
theorem tokenizeLoop_readable (fuel : ℕ) : AcceptsReadable fuel := by
  induction fuel with
  | zero => exact fun _ _ enough => absurd enough (Nat.not_lt_zero _)
  | succ fuel less =>
    intro t amid line enough
    rcases shape : t.rest with _ | ⟨c, rest⟩
    · have ended : tokenizeLoop (fuel + 1) t = .ok [⟨.eof, ⟨t.pos, t.pos⟩⟩] := by
        rw [tokenizeLoop, nextToken_nil shape]
        rfl
      simp [ended, Readable.nil]
    by_cases blank : isBlank c = true
    · exact shape ▸ less.blanks amid line enough shape blank
    by_cases opens : c = '('
    · subst opens
      have read : t.nextToken = .ok (t.emitOther .groupOpen ['('] rest) := by
        simp [nextToken, shape, isBlank, amid.significant]
      exact (less.emitted amid line enough shape (by simp) (by simp) read).trans
        (readable_gap (.inr (.inl rfl))).symm
    by_cases closes : c = ')'
    · subst closes
      have read : t.nextToken = .ok (t.emitOther .groupClose [')'] rest) := by
        simp [nextToken, shape, isBlank, amid.outside]
      exact (less.emitted amid line enough shape (by simp) (by simp) read).trans
        (readable_gap (.inr (.inr rfl))).symm
    by_cases double : c = '"'
    · subst double
      exact less.double amid line enough shape
    rcases starts : startsWithOperator (c :: rest) with _ | ⟨token, boundary⟩
    · by_cases bar : c = '|'
      · subst bar
        obtain ⟨e, fails⟩ := nextToken_bare_bar shape starts
        exact iff_of_false (tokenizeLoop_rejects fails) (not_readable_bar starts)
      by_cases single : c = '\''
      · subst single
        exact less.single amid line enough shape
      have newline : c ≠ '\n' := by
        rintro rfl
        simp [shape] at line
      have plain : isDelimiter c = false := by
        simp_all [isDelimiter, isBlank]
      exact less.word amid line enough shape plain starts single
    · exact shape ▸ less.operator amid line enough (shape ▸ starts)

end Loop

end CueShell
