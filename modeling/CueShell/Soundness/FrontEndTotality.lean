import CueShell.Proofs.FrontEndParsing

/-! # The front end is total

On every text and in every mode the front end ends with a command or an error: it reaches no
`unreachable!`, no index out of range and no slice off a character boundary. The tokens of a text cover
it without gaps, and the spans to highlight lie in it, between characters and in order.
-/

namespace CueShell

section Errors

open Tokenizer

variable {input front text rest : List Char} {t : Tokenizer} {c : Char} {error : TokenizeError}

/-- A place an error is reported at: in front of a character below 128, or at the end. -/
def ErrorPlace (input : List Char) (pos : ℕ) : Prop :=
  (∃ front c back, input = front ++ c :: back ∧ c.toNat < 128 ∧ pos = Text.byteLength front) ∨
    pos = Text.byteLength input

theorem ErrorPlace.bounds {pos : ℕ} (place : ErrorPlace input pos) :
    Text.IsBoundary input pos ∧ Text.IsBoundary input (min (pos + 1) (Text.byteLength input)) ∧
      pos ≤ min (pos + 1) (Text.byteLength input) := by
  rcases place with ⟨front, c, back, rfl, low, rfl⟩ | rfl
  · have unit := utf8Size_of_lt low
    have size : Text.byteLength (front ++ [c]) = Text.byteLength front + 1 := by
      rw [Text.byteLength_append, Text.byteLength_cons, Text.byteLength_nil, unit]
    have whole : Text.byteLength (front ++ c :: back) = Text.byteLength front + 1 + Text.byteLength back := by
      rw [Text.byteLength_append, Text.byteLength_cons, unit, Nat.add_assoc]
    refine ⟨Text.isBoundary_append, ?_, by omega⟩
    rw [min_eq_left (by omega), ← size, List.append_cons]
    exact Text.isBoundary_append
  · refine ⟨Text.isBoundary_end, ?_, by omega⟩
    rw [min_eq_right (by omega)]
    exact Text.isBoundary_end

theorem spacedOperator_error {token : Token} (failed : t.spacedOperator token = .error error) :
    error.pos = t.pos := by
  rw [spacedOperator] at failed
  split_ifs at failed
  · obtain rfl := Except.error.inj failed
    rfl

theorem tokenizePipeOrParallel_error (shape : t.rest = '|' :: text)
    (failed : t.tokenizePipeOrParallel = .error error) : error.pos = t.pos := by
  rw [tokenizePipeOrParallel_if shape] at failed
  split_ifs at failed
  · exact spacedOperator_error failed
  · exact spacedOperator_error failed
  · obtain rfl := Except.error.inj failed
    rfl

theorem gobbleWord_error {flag : Bool} {before : Option Char} {pos : ℕ}
    (failed : gobbleWord flag before pos text = .error error) :
    ∃ word c rest, text = word ++ c :: rest ∧ c.toNat < 128 ∧ error.pos = pos + Text.byteLength word := by
  fun_induction gobbleWord flag before pos text with
  | case1 => simp at failed
  | case2 => simp at failed
  | case3 before pos c text go token boundary starts unfit =>
    have low : c.toNat < 128 := by
      by_contra big
      rw [startsWithOperator_of_high (Nat.le_of_not_lt big)] at starts
      simp at starts
    obtain rfl := Except.error.inj failed
    exact ⟨[], c, text, rfl, low, rfl⟩
  | case4 => simp at failed
  | case5 before pos c text go free ih =>
    cases inner : gobbleWord flag (some c) (pos + c.utf8Size) text with
    | ok value =>
      rw [inner] at failed
      cases failed
    | error inside =>
      rw [inner] at failed
      obtain rfl : inside = error := Except.error.inj failed
      obtain ⟨word, d, rest, rfl, low, place⟩ := ih inner
      exact ⟨c :: word, d, rest, rfl, low, by rw [place, Text.byteLength_cons, Nat.add_assoc]⟩

variable (behind : t.Behind input front)
include behind

theorem Tokenizer.Behind.errorPlace_here (shape : t.rest = c :: rest) (low : c.toNat < 128) :
    ErrorPlace input t.pos :=
  .inl ⟨front, c, rest, behind.split.trans (by rw [shape]), low, behind.pos⟩

theorem Tokenizer.Behind.tokenizeRegularWord_error (shape : t.rest = c :: rest)
    (failed : t.tokenizeRegularWord = .error error) : ErrorPlace input error.pos := by
  rw [Tokenizer.tokenizeRegularWord] at failed
  cases found : gobbleWord t.inModeParams t.before t.pos t.rest with
  | error inside =>
    rw [found] at failed
    obtain rfl : inside = error := Except.error.inj failed
    obtain ⟨word, d, after, parts, low, place⟩ := gobbleWord_error found
    refine .inl ⟨front ++ word, d, after, ?_, low, ?_⟩
    · rw [behind.split, parts, List.append_assoc]
    · rw [place, behind.pos, Text.byteLength_append]
  | ok value =>
    obtain ⟨word, after⟩ := value
    rw [found] at failed
    change (if word = [] then _ else _) = _ at failed
    split_ifs at failed with empty
    · subst empty
      obtain rfl := Except.error.inj failed
      exact behind.errorPlace_here shape (gobbleWord_stuck (shape ▸ found))
    · split at failed <;> simp at failed

theorem Tokenizer.Behind.tokenizeWord_error (shape : t.rest = c :: rest)
    (failed : t.tokenizeWord = .error error) : ErrorPlace input error.pos := by
  cases atHead : idRefAt t.rest with
  | some found =>
    rw [Tokenizer.tokenizeWord, atHead] at failed
    simp at failed
  | none =>
    rw [tokenizeWord_cons shape atHead] at failed
    split_ifs at failed with equals comma double single
    · rw [Tokenizer.tokenizeQuotedString] at failed
      split at failed
      · simp at failed
      · obtain rfl := Except.error.inj failed
        exact behind.errorPlace_here shape (double ▸ by decide)
      · obtain rfl := Except.error.inj failed
        exact .inr (by rw [behind.split, Text.byteLength_append, behind.pos])
    · rw [Tokenizer.tokenizeSingleQuotedString] at failed
      split at failed
      · simp at failed
      · obtain rfl := Except.error.inj failed
        exact behind.errorPlace_here shape (single ▸ by decide)
    · exact behind.tokenizeRegularWord_error shape failed

theorem Tokenizer.Behind.nextToken_error (failed : t.nextToken = .error error) : ErrorPlace input error.pos := by
  cases shape : t.rest with
  | nil =>
    rw [nextToken_nil shape] at failed
    simp at failed
  | cons c rest =>
    rw [nextToken_cons shape, Tokenizer.tokenAt] at failed
    split_ifs at failed with line back blank colon opens params closes inside serial always both bar
    · exact spacedOperator_error failed ▸ behind.errorPlace_here shape (serial.1 ▸ by decide)
    · exact spacedOperator_error failed ▸ behind.errorPlace_here shape (always.1 ▸ by decide)
    · rw [tokenizePipeOrParallel_error (bar ▸ shape) failed]
      exact behind.errorPlace_here shape (bar ▸ by decide)
    · exact behind.tokenizeWord_error shape failed

omit behind

theorem tokenizeLoop_error {fuel : ℕ} (behind : t.Behind input front)
    (failed : tokenizeLoop fuel t = .error error) : ErrorPlace input error.pos := by
  induction fuel generalizing t front with
  | zero => simp [tokenizeLoop] at failed
  | succ fuel ih =>
    rw [tokenizeLoop] at failed
    cases found : t.nextToken with
    | error inside =>
      rw [found] at failed
      obtain rfl : inside = error := Except.error.inj failed
      exact behind.nextToken_error found
    | ok value =>
      obtain ⟨spanned, t'⟩ := value
      rw [found] at failed
      change (if spanned.token = .eof then _ else _) = _ at failed
      split_ifs at failed with ends
      · have more : t.rest ≠ [] := by
          intro none
          rw [nextToken_nil none] at found
          obtain ⟨rfl, -⟩ := Prod.mk.inj (Except.ok.inj found)
          exact ends rfl
        obtain ⟨text, -, -, -, behind'⟩ := behind.step found more
        cases loop : tokenizeLoop fuel t' with
        | error inside =>
          rw [loop] at failed
          obtain rfl : inside = error := Except.error.inj failed
          exact ih behind' loop
        | ok tokens =>
          rw [loop] at failed
          cases failed

theorem tokenize_error {input : String} (failed : tokenize input = .error error) :
    ErrorPlace input.toList error.pos := by
  have behind : (Tokenizer.new input).Behind input.toList [] := ⟨rfl, rfl, rfl⟩
  exact tokenizeLoop_error behind failed

end Errors

section Cover

variable {input front text : List Char} {pos : ℕ} {tokens : List Spanned}

/-- The tokens cover a text without gaps, from a position to its end, and every one lies between characters. -/
structure Covers (input : List Char) (tokens : List Spanned) : Prop where
  starts : tokens.head?.map (fun spanned => spanned.span.start) = some 0
  contiguous : tokens.IsChain fun first next => first.span.stop = next.span.start
  ends : tokens.getLast?.map (fun spanned => spanned.span.stop) = some (Text.byteLength input)
  bounds : ∀ spanned ∈ tokens, Text.IsBoundary input spanned.span.start ∧
    Text.IsBoundary input spanned.span.stop ∧ spanned.span.start ≤ spanned.span.stop

theorem Chained.starts (chained : Chained pos text tokens) :
    tokens.head?.map (fun spanned => spanned.span.start) = some pos := by
  cases chained <;> rfl

theorem Chained.contiguous (chained : Chained pos text tokens) :
    tokens.IsChain fun first next => first.span.stop = next.span.start := by
  induction chained with
  | nil => exact .singleton _
  | cons nonempty real chained ih =>
    refine List.isChain_cons.mpr ⟨fun next first => ?_, ih⟩
    have here := chained.starts
    rw [first] at here
    exact (Option.some.inj here).symm

theorem Chained.ends (chained : Chained pos text tokens) :
    tokens.getLast?.map (fun spanned => spanned.span.stop) = some (pos + Text.byteLength text) := by
  induction chained with
  | nil => rfl
  | @cons pos token text rest tokens nonempty real chained ih =>
    obtain ⟨next, others, rfl⟩ : ∃ next others, tokens = next :: others := by
      cases chained <;> exact ⟨_, _, rfl⟩
    rw [List.getLast?_cons_cons, ih, Text.byteLength_append, Nat.add_assoc]

/-- Every token with a later one is nonempty and ends at or in front of it. -/
theorem Chained.increasing (chained : Chained pos text tokens) : tokens.Pairwise fun first later =>
    first.span.start < later.span.start ∧ first.span.stop ≤ later.span.start := by
  induction chained with
  | nil => simp
  | @cons pos token text rest tokens nonempty real chained ih =>
    refine List.pairwise_cons.mpr ⟨fun spanned member => ?_, ih⟩
    have later := (chained.behind spanned member).1
    have positive := byteLength_pos nonempty
    exact ⟨by dsimp only; omega, later⟩

theorem tokenize_covers {input : String} (found : Tokenizer.tokenize input = .ok tokens) :
    Covers input.toList tokens := by
  have chained := tokenize_chained found
  refine ⟨chained.starts, chained.contiguous, ?_, chained.bounds (List.nil_append _).symm rfl⟩
  rw [chained.ends, Nat.zero_add]

end Cover

section Highlight

open FrontEnd

variable {input : String} {tokens : List Spanned}

/-- The spans lie in the text, between characters and in increasing order. -/
structure Highlights (input : List Char) (spans : List HighlightSpan) : Prop where
  bounds : ∀ span ∈ spans, Text.IsBoundary input span.start ∧ Text.IsBoundary input span.stop ∧
    span.start ≤ span.stop ∧ span.stop ≤ Text.byteLength input
  order : spans.Pairwise fun first later => first.start < later.start ∧ first.stop ≤ later.start

theorem highlights_of_tokens (found : Tokenizer.tokenize input = .ok tokens) :
    Highlights input.toList (tokens.filterMap fun spanned =>
      (highlightKind spanned.token).map fun kind => ⟨spanned.span.start, spanned.span.stop, kind⟩) := by
  have covers := tokenize_covers found
  have increasing := (tokenize_chained found).increasing
  refine ⟨fun span member => ?_, increasing.filterMap _ fun first later ordered => ?_⟩
  · obtain ⟨spanned, inside, made⟩ := List.mem_filterMap.mp member
    obtain ⟨kind, -, rfl⟩ := Option.map_eq_some_iff.mp made
    obtain ⟨starts, stops, ordered⟩ := covers.bounds spanned inside
    exact ⟨starts, stops, ordered, stops.le⟩
  · rintro span made span' made'
    obtain ⟨kind, -, rfl⟩ := Option.map_eq_some_iff.mp made
    obtain ⟨kind', -, rfl⟩ := Option.map_eq_some_iff.mp made'
    exact ordered

theorem highlights_of_error {error : TokenizeError} (failed : Tokenizer.tokenize input = .error error) :
    Highlights input.toList [⟨error.pos, min (error.pos + 1) (Text.byteLength input.toList), .error⟩] := by
  obtain ⟨starts, stops, ordered⟩ := (tokenize_error failed).bounds
  refine ⟨?_, List.pairwise_singleton ..⟩
  intro span member
  obtain rfl := List.mem_singleton.mp member
  exact ⟨starts, stops, ordered, stops.le⟩

theorem highlightInput_highlights (input : String) :
    ∃ spans, highlightInput input = some spans ∧ Highlights input.toList spans := by
  rw [highlightInput, tokenize_ends]
  cases found : Tokenizer.tokenize input with
  | ok tokens => exact ⟨_, rfl, highlights_of_tokens found⟩
  | error error => exact ⟨_, rfl, highlights_of_error found⟩

end Highlight

/-- On every text and in every mode the front end ends with a command or an error. The tokens of a text
cover it without gaps, and the spans to highlight lie in it, between characters and in order. -/
theorem front_end_total (input : String) (mode : Mode) :
    (∃ result, (ByteTokenizer.tokenize input).run = some result ∧
      ∀ tokens, result = .ok tokens → Covers input.toList tokens) ∧
    (∃ result, (FrontEnd.parse input).run = some result) ∧
    (∃ result, (FrontEnd.parseCommand input mode).run = some result) ∧
    (∃ result, (FrontEnd.parseFileScriptCommand input).run = some result) ∧
    ∃ spans, FrontEnd.highlightInput input = some spans ∧ Highlights input.toList spans := by
  refine ⟨⟨Tokenizer.tokenize input, ?_, fun tokens found => tokenize_covers found⟩, ⟨Parser.parse input, ?_⟩,
    Option.isSome_iff_exists.mp (FrontEnd.parseCommand_isSome input mode),
    Option.isSome_iff_exists.mp (FrontEnd.parseFileScriptCommand_isSome input), highlightInput_highlights input⟩
  · rw [tokenize_ends]
    rfl
  · rw [FrontEnd.parse_ends]
    rfl

end CueShell
