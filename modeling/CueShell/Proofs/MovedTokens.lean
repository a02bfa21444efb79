import CueShell.Proofs.TokenSpans
import CueShell.ToMathlib.Agreement

/-! # The same text further to the right

A tokenizer that stands before the same text, but further to the right in its input, reads the same tokens
there. Apart from the text it asks what is in front of it only where an operator, a colon or an opening
parenthesis follows.
-/

namespace CueShell

/-- A span further to the right. -/
def Span.moved (offset : ℕ) (span : Span) : Span := ⟨span.start + offset, span.stop + offset⟩

def Spanned.moved (offset : ℕ) (spanned : Spanned) : Spanned := ⟨spanned.token, spanned.span.moved offset⟩

/-- Two tokenizers before the same text. -/
structure Beside (offset : ℕ) (t u : Tokenizer) : Prop where
  rest : u.rest = t.rest
  pos : u.pos = t.pos + offset
  inModeParams : u.inModeParams = t.inModeParams
  before : u.before.all isOperatorBoundary = t.before.all isOperatorBoundary

/-- The same token, and tokenizers that go on alike. -/
structure StepsBeside (offset : ℕ) (x y : Spanned × Tokenizer) : Prop where
  token : y.1 = x.1.moved offset
  beside : Beside offset x.2 y.2
  lastSignificant : y.2.lastSignificant = x.2.lastSignificant

section Steps

variable {offset : ℕ} {t u : Tokenizer}

theorem Beside.emit (beside : Beside offset t u) (token : Token) (text rest : List Char)
    (last : Option TokenClass) (flag : Bool) :
    StepsBeside offset (t.emit token text rest last flag) (u.emit token text rest last flag) where
  token := by simp [Tokenizer.emit, Spanned.moved, Span.moved, beside.pos, Nat.add_right_comm]
  beside := by
    refine ⟨rfl, by simp [Tokenizer.emit, beside.pos, Nat.add_right_comm], rfl, ?_⟩
    rw [Tokenizer.emit, Tokenizer.emit]
    cases text.getLast? with
    | none => exact beside.before
    | some last => rfl
  lastSignificant := rfl

theorem Beside.emitOther (beside : Beside offset t u) (token : Token) (text rest : List Char) :
    StepsBeside offset (t.emitOther token text rest) (u.emitOther token text rest) := by
  rw [Tokenizer.emitOther, Tokenizer.emitOther, beside.inModeParams]
  exact beside.emit token text rest _ _

theorem operatorHasRequiredWhitespace_congr {before before' : Option Char}
    (same : before'.all isOperatorBoundary = before.all isOperatorBoundary) (text : List Char) (length : ℕ) :
    operatorHasRequiredWhitespace before' text length = operatorHasRequiredWhitespace before text length := by
  rw [operatorHasRequiredWhitespace, operatorHasRequiredWhitespace, same]

theorem Beside.spacedOperator (beside : Beside offset t u) (token : Token) :
    Agree (StepsBeside offset) (t.spacedOperator token) (u.spacedOperator token) := by
  rw [Tokenizer.spacedOperator, Tokenizer.spacedOperator, beside.rest,
    operatorHasRequiredWhitespace_congr beside.before]
  split
  · exact .ok (beside.emitOther _ _ _)
  · exact .error

theorem Beside.tokenizePipeOrParallel (beside : Beside offset t u) :
    Agree (StepsBeside offset) t.tokenizePipeOrParallel u.tokenizePipeOrParallel := by
  rw [Tokenizer.tokenizePipeOrParallel, Tokenizer.tokenizePipeOrParallel, beside.rest]
  split
  · exact .ok (beside.emitOther _ _ _)
  · exact .ok (beside.emitOther _ _ _)
  · exact .ok (beside.emitOther _ _ _)
  · exact beside.spacedOperator _
  · exact beside.spacedOperator _
  · exact .ok (beside.emitOther _ _ _)
  · exact .error

theorem Beside.tokenizeQuotedString (beside : Beside offset t u) (body : List Char) :
    Agree (StepsBeside offset) (t.tokenizeQuotedString body) (u.tokenizeQuotedString body) := by
  rw [Tokenizer.tokenizeQuotedString, Tokenizer.tokenizeQuotedString]
  split
  · exact .ok (beside.emitOther _ _ _)
  · exact .error
  · exact .error

theorem Beside.tokenizeSingleQuotedString (beside : Beside offset t u) (body : List Char) :
    Agree (StepsBeside offset) (t.tokenizeSingleQuotedString body) (u.tokenizeSingleQuotedString body) := by
  rw [Tokenizer.tokenizeSingleQuotedString, Tokenizer.tokenizeSingleQuotedString]
  split
  · exact .ok (beside.emitOther _ _ _)
  · exact .error

/-- The position of a word shows in errors only. -/
theorem gobbleWord_moved (flag : Bool) {before before' : Option Char} (text : List Char) (pos pos' : ℕ)
    (same : before'.all isOperatorBoundary = before.all isOperatorBoundary) :
    Agree (· = ·) (gobbleWord flag before pos text) (gobbleWord flag before' pos' text) := by
  induction text generalizing before before' pos pos' with
  | nil => exact .ok rfl
  | cons c rest ih =>
    rw [gobbleWord, gobbleWord]
    split
    · exact .ok rfl
    · split
      · rw [operatorHasRequiredWhitespace_congr same]
        split
        · exact .error
        · exact .ok rfl
      · refine (ih _ _ rfl).bind ?_
        rintro ⟨word, after⟩ - rfl
        exact .ok rfl

theorem Beside.tokenizeRegularWord (beside : Beside offset t u) :
    Agree (StepsBeside offset) t.tokenizeRegularWord u.tokenizeRegularWord := by
  rw [Tokenizer.tokenizeRegularWord, Tokenizer.tokenizeRegularWord, beside.rest, beside.inModeParams]
  refine (gobbleWord_moved _ _ _ _ beside.before).bind ?_
  rintro ⟨word, rest⟩ - rfl
  dsimp only
  split
  · exact .error
  · split
    · exact .ok (beside.emitOther _ _ _)
    · exact .ok (beside.emitOther _ _ _)

theorem Beside.tokenizeWord (beside : Beside offset t u) :
    Agree (StepsBeside offset) t.tokenizeWord u.tokenizeWord := by
  rw [Tokenizer.tokenizeWord, Tokenizer.tokenizeWord, beside.rest, beside.inModeParams]
  split
  · exact .ok (beside.emitOther _ _ _)
  · split
    · exact beside.tokenizeQuotedString _
    · exact beside.tokenizeSingleQuotedString _
    · split
      · exact .ok (beside.emitOther _ _ _)
      · split
        · exact .ok (beside.emitOther _ _ _)
        · exact beside.tokenizeRegularWord
    · exact beside.tokenizeRegularWord

theorem Beside.tokenizeColon (beside : Beside offset t u) (rest : List Char) :
    StepsBeside offset (t.tokenizeColon rest) (u.tokenizeColon rest) := by
  rw [Tokenizer.tokenizeColon, Tokenizer.tokenizeColon, beside.inModeParams]
  split
  · exact beside.emitOther _ _ _
  · exact beside.emit _ _ _ _ _

/-- What the tokenizers know of the last token is the same, or the next character does not ask for it. -/
def SameContext (t u : Tokenizer) : Prop :=
  u.lastSignificant = t.lastSignificant ∧ (t.pos = 0 → t.lastSignificant = none) ∨
    ∃ c rest, t.rest = c :: rest ∧ isBlank c = false ∧ c ≠ ':' ∧ c ≠ '('

theorem Beside.nextToken (beside : Beside offset t u) (context : SameContext t u) :
    Agree (StepsBeside offset) t.nextToken u.nextToken := by
  rw [Tokenizer.nextToken, Tokenizer.nextToken, beside.rest]
  split
  · next none =>
    have same : u.lastSignificant = t.lastSignificant := by
      rcases context with ⟨same, -⟩ | ⟨c, rest, shape, -⟩
      · exact same
      · exact absurd (none.symm.trans shape) (by simp)
    exact .ok ⟨by simp [Spanned.moved, Span.moved, beside.pos], beside, same⟩
  · rw [beside.inModeParams]
    exact .ok (beside.emit _ _ _ _ _)
  · rw [beside.inModeParams]
    exact .ok (beside.emit _ _ _ _ _)
  · next c rest _ _ shape =>
    have colon : c = ':' ∧ (u.pos = 0 ∨ u.lastSignificant = none) ↔
        c = ':' ∧ (t.pos = 0 ∨ t.lastSignificant = none) := by
      rw [beside.pos]
      rcases context with ⟨same, start⟩ | ⟨d, rest', shape', -, other, -⟩
      · rw [same]
        constructor
        · rintro ⟨rfl, first | none⟩
          · exact ⟨rfl, .inl (by omega)⟩
          · exact ⟨rfl, .inr none⟩
        · rintro ⟨rfl, first | none⟩
          · exact ⟨rfl, .inr (start first)⟩
          · exact ⟨rfl, .inr none⟩
      · obtain ⟨rfl, -⟩ := List.cons.inj (shape'.symm.trans shape)
        exact ⟨fun is => absurd is.1 other, fun is => absurd is.1 other⟩
    have paren : c = '(' → (u.lastSignificant = some .command ↔ t.lastSignificant = some .command) := by
      rintro rfl
      rcases context with ⟨same, -⟩ | ⟨d, rest', shape', -, -, other⟩
      · rw [same]
      · exact absurd (List.cons.inj (shape'.symm.trans shape)).1 other
    have blank : isBlank c = true → u.lastSignificant = t.lastSignificant := by
      intro blank
      rcases context with ⟨same, -⟩ | ⟨d, rest', shape', dark, -⟩
      · exact same
      · obtain ⟨rfl, -⟩ := List.cons.inj (shape'.symm.trans shape)
        exact absurd blank (by simp [dark])
    rw [beside.inModeParams]
    simp only [colon]
    split
    · next isBlank =>
      rw [blank isBlank]
      exact .ok (beside.emit _ _ _ _ _)
    split
    · exact .ok (beside.tokenizeColon rest)
    split
    · next opens =>
      simp only [paren opens]
      split
      · exact .ok (beside.emit _ _ _ _ _)
      · exact .ok (beside.emitOther _ _ _)
    split
    · split
      · exact .ok (beside.emit _ _ _ _ _)
      · exact .ok (beside.emitOther _ _ _)
    split
    · exact beside.spacedOperator _
    split
    · exact beside.spacedOperator _
    split
    · exact .ok (beside.emitOther _ _ _)
    split
    · exact beside.tokenizePipeOrParallel
    · exact beside.tokenizeWord

/-- Both tokenizers fail on the text, or read the same tokens, the one further to the right. -/
theorem Beside.tokenizeLoop {fuel fuel' : ℕ} (beside : Beside offset t u) (context : SameContext t u)
    (enough : t.rest.length < fuel) (enough' : t.rest.length < fuel') :
    Agree (fun tokens tokens' => tokens' = tokens.map (Spanned.moved offset)) (Tokenizer.tokenizeLoop fuel t)
      (Tokenizer.tokenizeLoop fuel' u) := by
  induction fuel generalizing t u fuel' with
  | zero => exact absurd enough (Nat.not_lt_zero _)
  | succ fuel ih =>
    obtain ⟨fuel', rfl⟩ : ∃ n, fuel' = n + 1 := ⟨fuel' - 1, by omega⟩
    rw [Tokenizer.tokenizeLoop, Tokenizer.tokenizeLoop]
    rcases (beside.nextToken context).elim with
      ⟨e, e', next, next'⟩ | ⟨⟨spanned, t'⟩, ⟨spanned', u'⟩, next, next', step⟩
    · rw [next, next']
      exact .error
    obtain rfl : spanned' = spanned.moved offset := step.token
    rw [next, next', Parser.ok_bind, Parser.ok_bind]
    dsimp only
    have same : (spanned.moved offset).token = spanned.token := rfl
    rw [same]
    by_cases more : t.rest = []
    · rw [nextToken_nil more] at next
      obtain ⟨rfl, -⟩ := Prod.mk.inj (Except.ok.inj next)
      exact .ok rfl
    · obtain ⟨text, nonempty, split, real, -, moved⟩ := nextToken_piece_of_text next more
      have length := List.length_pos_of_ne_nil nonempty
      rw [split, List.length_append] at enough enough'
      have later : 0 < t'.pos := by
        have size := byteLength_pos nonempty
        omega
      rw [if_neg real, if_neg real]
      have shorter : t'.rest.length < fuel := by omega
      have shorter' : t'.rest.length < fuel' := by omega
      have context' : SameContext t' u' := .inl ⟨step.lastSignificant, fun start => absurd start (by omega)⟩
      refine (ih step.beside context' shorter shorter').bind ?_
      rintro tokens - rfl
      exact .ok rfl

end Steps

end CueShell
