import CueShell.Proofs.ChainTokens
import CueShell.ToMathlib.Words
import Mathlib.Data.List.DropRight

/-! # Tokens of a plain line

On a line without quotes, parentheses and operators the tokenizer yields blanks, words that are whole
runs, and ID references, which are cut off the head of a run.
-/

namespace CueShell

open Tokenizer

/-- The maximal runs of characters other than blank and tab. -/
def blankRuns (text : List Char) : List (List Char) := (text.splitOnP isBlank).filter (· ≠ [])

/-- A single line without quote characters, parentheses and operators. -/
structure PlainLine (text : List Char) : Prop where
  chars : ∀ c ∈ text, c ≠ '\n' ∧ c ≠ '"' ∧ c ≠ '\'' ∧ c ≠ '(' ∧ c ≠ ')'
  operators : operatorFree text = true

theorem plainLine_iff {text : List Char} : PlainLine text ↔
    (text.all fun c => c ≠ '\n' ∧ c ≠ '"' ∧ c ≠ '\'' ∧ c ≠ '(' ∧ c ≠ ')') = true ∧
      operatorFree text = true := by
  rw [List.all_eq_true]
  exact ⟨fun line => ⟨fun c member => decide_eq_true (line.chars c member), line.operators⟩,
    fun line => ⟨fun c member => of_decide_eq_true (line.1 c member), line.2⟩⟩

instance : DecidablePred PlainLine := fun _ => decidable_of_iff _ plainLine_iff.symm

section Runs

variable {run rest blanks : List Char}

/-- The text goes on with a blank, or ends. -/
def RunEnds (rest : List Char) : Prop := ∀ c ∈ rest.head?, isBlank c = true

theorem RunEnds.breaks (ends : RunEnds rest) : Breaks rest := by
  intro c first
  have blank := ends c first
  simp only [isBlank, Bool.or_eq_true, beq_iff_eq] at blank
  rcases blank with rfl | rfl <;> rfl

theorem blankRuns_cons_blank {c : Char} (blank : isBlank c = true) (rest : List Char) :
    blankRuns (c :: rest) = blankRuns rest := by
  simp [blankRuns, List.splitOnP_cons_eq_if_modifyHead, blank]

theorem blankRuns_blanks (all : ∀ c ∈ blanks, isBlank c = true) (rest : List Char) :
    blankRuns (blanks ++ rest) = blankRuns rest := by
  induction blanks with
  | nil => rfl
  | cons c blanks ih =>
    obtain ⟨first, others⟩ := List.forall_mem_cons.mp all
    rw [List.cons_append, blankRuns_cons_blank first, ih others]

theorem blankRuns_run (nonempty : run ≠ []) (dark : ∀ c ∈ run, isBlank c = false) (ends : RunEnds rest) :
    blankRuns (run ++ rest) = run :: blankRuns rest := by
  cases rest with
  | nil =>
    rw [List.append_nil, blankRuns, List.splitOnP_eq_singleton dark]
    simp [blankRuns, nonempty]
  | cons c rest =>
    have blank := ends c (by simp)
    rw [blankRuns_cons_blank blank, blankRuns, List.splitOnP_append_cons_of_forall_mem dark c blank]
    simp [blankRuns, nonempty]

/-- The first run of a text that does not start with a blank. -/
theorem exists_run {c : Char} (dark : isBlank c = false) (rest : List Char) :
    ∃ run after, c :: rest = run ++ after ∧ c ∈ run ∧ (∀ d ∈ run, isBlank d = false) ∧ RunEnds after := by
  induction rest generalizing c with
  | nil => exact ⟨[c], [], rfl, by simp, by simpa using dark, by simp [RunEnds]⟩
  | cons d rest ih =>
    cases blank : isBlank d with
    | true => exact ⟨[c], d :: rest, rfl, by simp, by simpa using dark, by simpa [RunEnds] using blank⟩
    | false =>
      obtain ⟨run, after, split, -, all, ends⟩ := ih blank
      exact ⟨c :: run, after, congrArg (c :: ·) split, by simp,
        List.forall_mem_cons.mpr ⟨dark, all⟩, ends⟩

theorem mem_blankRuns (text : List Char) : blankRuns text = [] ↔ ∀ c ∈ text, isBlank c = true := by
  constructor
  · intro none
    by_contra visible
    simp only [not_forall, Bool.not_eq_true] at visible
    obtain ⟨c, member, dark⟩ := visible
    induction text with
    | nil => simp at member
    | cons d text ih =>
      cases blank : isBlank d with
      | true =>
        rw [blankRuns_cons_blank blank] at none
        refine ih none ?_
        rcases List.mem_cons.mp member with rfl | later
        · simp [blank] at dark
        · exact later
      | false =>
        obtain ⟨run, after, split, inside, all, ends⟩ := exists_run blank text
        rw [split, blankRuns_run (List.ne_nil_of_mem inside) all ends] at none
        simp at none
  · intro all
    simpa [blankRuns] using blankRuns_blanks all []

end Runs

/-- How the tokenizer cuts a plain line: into whole runs, or behind an ID reference. -/
inductive Segmented : ℕ → List Char → List Spanned → List (List Char) → Prop
  | nil {pos : ℕ} : Segmented pos [] [] []
  | blanks {pos : ℕ} {blanks rest : List Char} {tokens : List Spanned} {words : List (List Char)} :
      (∀ c ∈ blanks, isBlank c = true) → Segmented (pos + Text.byteLength blanks) rest tokens words →
      Segmented pos (blanks ++ rest) tokens words
  | word {pos : ℕ} {run rest : List Char} {tokens : List Spanned} {words : List (List Char)} :
      run ≠ [] → (∀ c ∈ run, isDelimiter c = false) → idRefAt run = none → RunEnds rest →
      Segmented (pos + Text.byteLength run) rest tokens words →
      Segmented pos (run ++ rest)
        (⟨.word (String.ofList run), ⟨pos, pos + Text.byteLength run⟩⟩ :: tokens) (run :: words)
  | idRef {pos : ℕ} {run rest digits : List Char} {kind : IdKind} {number : ℕ} {tokens : List Spanned}
      {words : List (List Char)} :
      idRefAt (run ++ rest) = some (kind, number, digits) → run = kind.display.toList ++ digits →
      Segmented (pos + Text.byteLength run) rest tokens words →
      Segmented pos (run ++ rest)
        (⟨.idRef kind number, ⟨pos, pos + Text.byteLength run⟩⟩ :: tokens)
        ((kind.idText number).toList :: words)

section Segments

variable {pos : ℕ} {text run rest digits : List Char} {tokens : List Spanned} {words : List (List Char)}
variable {kind : IdKind} {number : ℕ}

/-- What follows an ID reference is no part of an identifier. -/
theorem idRefAt_breaks (found : idRefAt text = some (kind, number, digits)) :
    Breaks (text.drop (digits.length + 1)) := by
  rw [idRefAt] at found
  split at found
  · simp at found
  · dsimp only at found
    split_ifs at found with clear
    obtain ⟨_, -, same⟩ := Option.map_eq_some_iff.mp found
    obtain rfl : text.tail.takeWhile Char.isDigit = digits := congrArg (·.2.2) same
    have behind : text.drop ((text.tail.takeWhile Char.isDigit).length + 1) =
        text.tail.dropWhile Char.isDigit := by
      rw [← List.drop_tail]
      have split := List.takeWhile_append_dropWhile (p := Char.isDigit) (l := text.tail)
      calc text.tail.drop (text.tail.takeWhile Char.isDigit).length
          = (text.tail.takeWhile Char.isDigit ++ text.tail.dropWhile Char.isDigit).drop
              (text.tail.takeWhile Char.isDigit).length := by rw [split]
        _ = text.tail.dropWhile Char.isDigit := List.drop_left
    rw [behind]
    intro c first
    rw [Option.mem_def.mp first] at clear
    simpa using clear

/-- The words of a segmented line are its runs exactly if no run starts with an ID reference that is
not all of it. -/
theorem Segmented.words_iff (segmented : Segmented pos text tokens words) :
    words = blankRuns text ↔ ∀ run ∈ blankRuns text, idStable run = true := by
  induction segmented with
  | nil => simp [blankRuns]
  | blanks all _ ih => rwa [blankRuns_blanks all]
  | @word pos run rest tokens words nonempty delimiters noId ends _ ih =>
    have dark : ∀ c ∈ run, isBlank c = false := fun c member => by
      have plain := delimiters c member
      simp only [isDelimiter, Bool.or_eq_false_iff] at plain
      simp [isBlank, plain]
    rw [blankRuns_run nonempty dark ends]
    simp [idStable, noId, ih]
  | @idRef pos run rest digits kind number tokens words found shape _ ih =>
    have nonempty : run ≠ [] := by cases kind <;> simp [shape, IdKind.display]
    obtain ⟨-, -, -, -, isDigit⟩ := idRefAt_eq_some found
    have identRun : ∀ c ∈ run, isIdentChar c = true := by
      rw [shape]
      intro c member
      rcases List.mem_append.mp member with letter | digit
      · cases kind <;> simp_all [IdKind.display, isIdentChar]
      · exact isIdentChar_of_isDigit (isDigit c digit)
    have darkRun : ∀ c ∈ run, isBlank c = false := fun c member => by
      have plain := not_delimiter_of_ident (identRun c member)
      simp only [isDelimiter, Bool.or_eq_false_iff] at plain
      simp [isBlank, plain]
    have length : digits.length + 1 = run.length := by
      rw [shape]
      cases kind <;> simp [IdKind.display]
    have breaks : Breaks rest := by simpa [length] using idRefAt_breaks found
    have headed : RunEnds rest ∨ ∃ c more, rest = c :: more ∧ isBlank c = false := by
      cases rest with
      | nil => exact .inl (by simp [RunEnds])
      | cons c more =>
        cases blank : isBlank c with
        | true => exact .inl (by simpa [RunEnds] using blank)
        | false => exact .inr ⟨c, more, rfl, blank⟩
    rcases headed with ends | ⟨c, more, rfl, dark⟩
    · rw [idRefAt_append ends.breaks nonempty] at found
      rw [blankRuns_run nonempty darkRun ends]
      simp [idStable, found, ih]
    · -- the run goes on behind the reference with a character that no reference contains
      obtain ⟨more', after, split, inside, all, ends⟩ := exists_run dark more
      have foreign : isIdentChar c = false := breaks c (by simp)
      have differs : (kind.idText number).toList ≠ run ++ more' := by
        intro same
        have ident := @idText_ident kind number c (by simp [same, inside])
        simp [foreign] at ident
      have darkAll : ∀ d ∈ run ++ more', isBlank d = false :=
        List.forall_mem_append.mpr ⟨darkRun, all⟩
      have whole : idRefAt (run ++ more') = some (kind, number, digits) := by
        rwa [split, ← List.append_assoc, idRefAt_append ends.breaks (by simp [nonempty])] at found
      rw [split, ← List.append_assoc, blankRuns_run (by simp [nonempty]) darkAll ends]
      simp [idStable, whole, differs]

theorem Segmented.spells (segmented : Segmented pos text tokens words) :
    Spells tokens (words.map fun word => .word (String.ofList word)) := by
  induction segmented with
  | nil => rfl
  | blanks _ _ ih => exact ih
  | word _ _ _ _ _ ih => exact spells_cons.mpr ⟨rfl, ih⟩
  | idRef _ _ _ ih => exact spells_cons.mpr ⟨by simp [Piece.ofToken], ih⟩

theorem Segmented.no_command (segmented : Segmented pos text tokens words) :
    ∀ spanned ∈ tokens, ∀ name, spanned.token ≠ .command name := by
  induction segmented with
  | nil => simp
  | blanks _ _ ih => exact ih
  | word _ _ _ _ _ ih => exact List.forall_mem_cons.mpr ⟨by simp, ih⟩
  | idRef _ _ _ ih => exact List.forall_mem_cons.mpr ⟨by simp, ih⟩

/-- A segmented text does not go on with a delimiter other than a blank. -/
theorem Segmented.head (segmented : Segmented pos text tokens words) :
    ∀ c ∈ text.head?, isDelimiter c = true → isBlank c = true := by
  induction segmented with
  | nil => simp
  | @blanks pos blanks rest tokens words all _ ih =>
    cases blanks with
    | nil => simpa using ih
    | cons d blanks =>
      intro c first _
      obtain rfl : d = c := by simpa using first
      exact all d (by simp)
  | @word pos run rest tokens words nonempty delimiters =>
    obtain ⟨d, run, rfl⟩ := List.exists_cons_of_ne_nil nonempty
    intro c first delimiter
    obtain rfl : d = c := by simpa using first
    simp [delimiters d (by simp)] at delimiter
  | @idRef pos run rest digits kind number tokens words found shape =>
    intro c first delimiter
    cases kind <;> simp_all [IdKind.display] <;> subst first <;> simp [isDelimiter] at delimiter

end Segments

section Lines

variable {t t' : Tokenizer} {text rest : List Char} {tokens : List Spanned} {spanned : Spanned}

theorem operatorFree_suffix (front : List Char) (free : operatorFree (front ++ rest) = true) :
    operatorFree rest = true := by
  induction front with
  | nil => exact free
  | cons c front ih =>
    simp only [List.cons_append, operatorFree, Bool.and_eq_true] at free
    exact ih free.2

theorem PlainLine.suffix (front : List Char) (plain : PlainLine (front ++ rest)) : PlainLine rest :=
  ⟨fun c member => plain.chars c (by simp [member]), operatorFree_suffix front plain.operators⟩

theorem startsWithOperator_operatorText {token : Token} (visible : token.operatorText ≠ "")
    (rest : List Char) : startsWithOperator (token.operatorText.toList ++ rest) ≠ none := by
  have member : token.operatorText.toList ∈ operatorTexts := by
    cases token with
    | serialThen | serialAlways | parallelAll | parallelRace | jobAnd | jobOr | pipeStdout | pipeAll
    | pipeStderr => decide
    | _ => exact absurd rfl visible
  intro none
  exact startsWithOperator_eq_none.mp none _ member (List.prefix_append _ _)

/-- A plain line has no operator at its head. -/
theorem PlainLine.not_operator (plain : PlainLine text) {token : Token}
    (visible : token.operatorText ≠ "") : text ≠ token.operatorText.toList ++ rest := by
  rintro rfl
  have starts := startsWithOperator_operatorText visible rest
  have free := plain.operators
  cases shape : token.operatorText.toList ++ rest with
  | nil => simp [shape, startsWithOperator] at starts
  | cons c more =>
    rw [shape] at starts free
    simp only [operatorFree, Bool.and_eq_true, Option.isNone_iff_eq_none] at free
    exact starts free.1

/-- A word of a plain line ends at a delimiter or at the end. -/
theorem gobbleWord_plain {before : Option Char} {pos : ℕ} {word : List Char} (plain : PlainLine text)
    (found : gobbleWord false before pos text = .ok (word, rest)) :
    ∀ c ∈ rest.head?, isDelimiter c = true := by
  fun_induction gobbleWord false before pos text generalizing word with
  | case1 => simp_all
  | case2 before pos c text stop =>
    simp only [Except.ok.injEq, Prod.mk.injEq] at found
    obtain ⟨-, rfl⟩ := found
    simpa using stop
  | case3 => simp at found
  | case4 before pos c text go token boundary starts fine =>
    have free := plain.operators
    simp [operatorFree, starts] at free
  | case5 before pos c text go free ih =>
    obtain ⟨⟨more, after⟩, inner, done⟩ := Parser.bind_eq_ok.mp found
    simp only [Except.ok.injEq, Prod.mk.injEq] at done
    obtain ⟨-, rfl⟩ := done
    exact ih (PlainLine.suffix [c] plain) inner

/-- The next significant character does not start a command. -/
def Tokenizer.Bare (t : Tokenizer) : Prop :=
  (0 < t.pos ∧ t.lastSignificant ≠ none) ∨ ∀ c ∈ (t.rest.dropWhile isBlank).head?, c ≠ ':'

theorem Tokenizer.bare_later (nonempty : text ≠ []) (moved : t'.pos = t.pos + Text.byteLength text)
    (significant : t'.lastSignificant ≠ none) : t'.Bare := by
  refine .inl ⟨?_, significant⟩
  obtain ⟨c, text, rfl⟩ := List.exists_cons_of_ne_nil nonempty
  rw [moved, Text.byteLength_cons]
  have size := c.utf8Size_pos
  omega

/-- One step on a plain line: blanks, or a significant token that is a segment. -/
theorem nextToken_plain (plain : PlainLine t.rest) (outside : t.inModeParams = false) (bare : t.Bare)
    (more : t.rest ≠ []) (found : t.nextToken = .ok (spanned, t')) :
    ∃ text, text ≠ [] ∧ t.rest = text ++ t'.rest ∧ t'.pos = t.pos + Text.byteLength text ∧
      t'.inModeParams = false ∧ t'.Bare ∧ spanned.token ≠ .eof ∧
      (spanned.token.isWhitespace = true ∧ (∀ c ∈ text, isBlank c = true) ∨
        spanned.token.isWhitespace = false ∧ ∀ tokens words,
          Segmented t'.pos t'.rest tokens words → ∃ words, Segmented t.pos t.rest (spanned :: tokens) words) := by
  rcases nextToken_emits found with ⟨none, -⟩ | ⟨token, text, rest, last, flag, lexeme, emitted⟩
  · exact absurd none more
  have split := lexeme.split
  have chars := plain.chars
  simp only [Tokenizer.emit, Prod.mk.injEq] at emitted
  obtain ⟨rfl, rfl⟩ := emitted
  cases lexeme with
  | lineFeed shape => exact absurd rfl (chars '\n' (by simp [shape])).1
  | returnFeed shape => exact absurd rfl (chars '\n' (by simp [shape])).1
  | @blanks c rest shape blank =>
    have nonempty : t.rest.takeWhile isBlank ≠ [] := by simp [shape, blank]
    refine ⟨_, nonempty, split, rfl, outside, ?_, by simp, .inl ⟨rfl, fun d member => ?_⟩⟩
    · rcases bare with ⟨started, significant⟩ | plainStart
      · exact .inl ⟨Nat.add_pos_left started _, significant⟩
      · refine .inr fun d first => plainStart d ?_
        rwa [List.dropWhile_idempotent] at first
    · exact List.mem_takeWhile_imp member
  | colon shape start _ | command shape start _ =>
    rcases bare with ⟨started, significant⟩ | plainStart
    · rcases start with zero | none
      · exact absurd zero (Nat.ne_of_gt started)
      · exact absurd none significant
    · exact absurd rfl (plainStart ':' (by simp [shape, isBlank]))
  | modeParenOpen shape | groupOpen shape => exact absurd rfl (chars '(' (by simp [shape])).2.2.2.1
  | modeParenClose shape | groupClose shape => exact absurd rfl (chars ')' (by simp [shape])).2.2.2.2
  | operator visible shape => exact absurd shape (plain.not_operator visible)
  | @idRef kind number digits atHead =>
    obtain ⟨covered, -⟩ := idRefAt_eq_some atHead
    have nonempty : t.rest.take (digits.length + 1) ≠ [] := by simpa using more
    refine ⟨_, nonempty, split, rfl, outside, Tokenizer.bare_later nonempty rfl (by simp), by simp,
      .inr ⟨rfl, fun tokens words segmented => ?_⟩⟩
    rw [split] at atHead
    have whole := Segmented.idRef atHead covered segmented
    rw [List.take_append_drop] at whole
    exact ⟨_, whole⟩
  | double shape quoted => exact absurd rfl (chars '"' (by simp [shape])).2.1
  | single shape quoted => exact absurd rfl (chars '\'' (by simp [shape])).2.2.1
  | paramEq inside _ | comma inside _ => simp [outside] at inside
  | value inside _ _ _ => simp [outside] at inside
  | @word word rest gobbled nonempty noQuote noId =>
    obtain ⟨-, delimiters, free, breaks⟩ := gobbleWord_ok gobbled
    rw [outside] at gobbled
    have stops := gobbleWord_plain plain gobbled
    rw [split, idRefAt_append breaks nonempty] at noId
    refine ⟨_, nonempty, split, rfl, outside, Tokenizer.bare_later nonempty rfl (by simp), by simp,
      .inr ⟨rfl, fun tokens words segmented => ?_⟩⟩
    rw [split]
    exact ⟨_, .word nonempty delimiters noId (fun c first => segmented.head c first (stops c first))
      segmented⟩

theorem nextToken_blank {t : Tokenizer} {c : Char} {rest : List Char} (shape : t.rest = c :: rest)
    (blank : isBlank c = true) :
    t.nextToken = .ok (t.emit (.whitespace (String.ofList (t.rest.takeWhile isBlank)))
      (t.rest.takeWhile isBlank) (t.rest.dropWhile isBlank) t.lastSignificant t.inModeParams) := by
  have kinds := blank
  simp only [isBlank, Bool.or_eq_true, beq_iff_eq] at kinds
  rcases kinds with rfl | rfl <;> simp [nextToken, shape, isBlank]

theorem tokenizeLoop_step {fuel : ℕ} (next : t.nextToken = .ok (spanned, t')) (real : spanned.token ≠ .eof)
    (found : tokenizeLoop (fuel + 1) t = .ok tokens) :
    ∃ others, tokenizeLoop fuel t' = .ok others ∧ tokens = spanned :: others := by
  rw [tokenizeLoop, next, Parser.ok_bind] at found
  dsimp only at found
  rw [if_neg real] at found
  obtain ⟨others, loop, done⟩ := Parser.bind_eq_ok.mp found
  exact ⟨others, loop, (Except.ok.inj done).symm⟩

/-- The significant tokens of a plain line cut it into segments. -/
theorem tokenizeLoop_plain {fuel : ℕ} (plain : PlainLine t.rest) (outside : t.inModeParams = false)
    (bare : t.Bare) (enough : t.rest.length < fuel) (found : tokenizeLoop fuel t = .ok tokens) :
    ∃ read final words, tokens.filter (fun spanned => !spanned.token.isWhitespace) = read ++ [final] ∧
      final.token = .eof ∧ Segmented t.pos t.rest read words := by
  induction fuel generalizing t tokens with
  | zero => exact absurd enough (Nat.not_lt_zero _)
  | succ fuel ih =>
    by_cases more : t.rest = []
    · rw [tokenizeLoop, nextToken_nil more, Parser.ok_bind] at found
      simp only [if_true, Except.ok.injEq] at found
      subst found
      refine ⟨[], ⟨.eof, ⟨t.pos, t.pos⟩⟩, [], by simp [Token.isWhitespace], rfl, ?_⟩
      rw [more]
      exact .nil
    · obtain ⟨⟨spanned, t'⟩, next, -⟩ := Parser.bind_eq_ok.mp (show (t.nextToken >>= _) = _ from found)
      obtain ⟨text, nonempty, split, moved, still, bare', real, step⟩ :=
        nextToken_plain plain outside bare more next
      obtain ⟨others, loop, rfl⟩ := tokenizeLoop_step next real found
      have shorter : t'.rest.length < fuel := by
        have length := List.length_pos_of_ne_nil nonempty
        rw [split, List.length_append] at enough
        omega
      obtain ⟨read, final, words, kept, isFinal, segmented⟩ :=
        ih (PlainLine.suffix text (split ▸ plain)) still bare' shorter loop
      rcases step with ⟨blank, all⟩ | ⟨visible, segment⟩
      · refine ⟨read, final, words, by simp [blank, kept], isFinal, ?_⟩
        rw [split]
        exact .blanks all (moved ▸ segmented)
      · obtain ⟨words, whole⟩ := segment _ _ segmented
        exact ⟨spanned :: read, final, words, by simp [visible, kept], isFinal, whole⟩

end Lines

section Spans

variable {pos : ℕ} {text lead mid trail : List Char} {tokens : List Spanned}

/-- Tokens that cover a text up to blanks between them. -/
inductive Tiled : ℕ → List Char → List Spanned → Prop
  | nil {pos : ℕ} : Tiled pos [] []
  | blanks {pos : ℕ} {blanks rest : List Char} {tokens : List Spanned} :
      (∀ c ∈ blanks, isBlank c = true) → Tiled (pos + Text.byteLength blanks) rest tokens →
      Tiled pos (blanks ++ rest) tokens
  | token {pos : ℕ} {text rest : List Char} {tokens : List Spanned} (token : Token) :
      Tiled (pos + Text.byteLength text) rest tokens →
      Tiled pos (text ++ rest) (⟨token, ⟨pos, pos + Text.byteLength text⟩⟩ :: tokens)

theorem Segmented.tiled {words : List (List Char)} (segmented : Segmented pos text tokens words) :
    Tiled pos text tokens := by
  induction segmented with
  | nil => exact .nil
  | blanks all _ ih => exact .blanks all ih
  | word _ _ _ _ _ ih => exact .token _ ih
  | idRef _ _ _ ih => exact .token _ ih

/-- Between the first and the last token lies the text without the blanks around it. -/
theorem Tiled.extent (tiled : Tiled pos text tokens) :
    (tokens = [] ∧ ∀ c ∈ text, isBlank c = true) ∨
      ∃ lead mid trail first last, text = lead ++ (mid ++ trail) ∧ tokens.head? = some first ∧
        tokens.getLast? = some last ∧ first.span.start = pos + Text.byteLength lead ∧
        last.span.stop = pos + Text.byteLength lead + Text.byteLength mid ∧
        (∀ c ∈ lead, isBlank c = true) ∧ ∀ c ∈ trail, isBlank c = true := by
  induction tiled with
  | nil => exact .inl ⟨rfl, by simp⟩
  | @blanks pos blanks rest tokens all _ ih =>
    rcases ih with ⟨none, white⟩ | ⟨lead, mid, trail, first, last, rfl, head, final, start, stop, left, right⟩
    · exact .inl ⟨none, List.forall_mem_append.mpr ⟨all, white⟩⟩
    · refine .inr ⟨blanks ++ lead, mid, trail, first, last, by simp, head, final, ?_, ?_,
        List.forall_mem_append.mpr ⟨all, left⟩, right⟩
      · rw [start, Text.byteLength_append, Nat.add_assoc]
      · rw [stop, Text.byteLength_append, Nat.add_assoc pos]
  | @token pos text rest tokens token _ ih =>
    rcases ih with ⟨rfl, white⟩ | ⟨lead, mid, trail, first, last, rfl, head, final, start, stop, left, right⟩
    · exact .inr ⟨[], text, rest, _, _, rfl, rfl, rfl, by simp, by simp, by simp, white⟩
    · refine .inr ⟨[], text ++ (lead ++ mid), trail, _, last, by simp, rfl, ?_, by simp, ?_, by simp, right⟩
      · cases tokens with
        | nil => simp at head
        | cons other tokens => simpa using final
      · rw [stop]
        simp [Nat.add_assoc]

theorem isWhiteSpace_of_isBlank {c : Char} (blank : isBlank c = true) : Text.isWhiteSpace c = true := by
  simp only [isBlank, Bool.or_eq_true, beq_iff_eq] at blank
  rcases blank with rfl | rfl <;> rfl

/-- The tokens of a line are its only statement, unless the line is white. -/
theorem pushScriptChunk_tiled (tiled : Tiled 0 text tokens) (nonempty : tokens ≠ []) :
    ((∀ c ∈ text, Text.isWhiteSpace c = true) ∧ pushScriptChunk text [] tokens = []) ∨
      ((∃ c ∈ text, Text.isWhiteSpace c = false) ∧
        ∃ chunk, pushScriptChunk text [] tokens = [chunk] ∧ chunk.tokens = tokens) := by
  rcases tiled.extent with ⟨none, -⟩ | ⟨lead, mid, trail, first, last, rfl, head, final, start, stop, left, right⟩
  · exact absurd none nonempty
  have inside : Text.slice (lead ++ (mid ++ trail)) first.span.start last.span.stop = mid := by
    rw [start, stop, Nat.zero_add, Text.slice_append]
  rw [pushScriptChunk, head, final]
  dsimp only
  rw [inside]
  by_cases white : ∀ c ∈ mid, Text.isWhiteSpace c = true
  · refine .inl ⟨?_, by rw [if_pos (Text.trim_eq_nil.mpr white)]⟩
    intro c member
    rcases List.mem_append.mp member with before | later
    · exact isWhiteSpace_of_isBlank (left c before)
    · rcases List.mem_append.mp later with within | after
      · exact white c within
      · exact isWhiteSpace_of_isBlank (right c after)
  · refine .inr ⟨?_, ?_⟩
    · simp only [not_forall, Bool.not_eq_true] at white
      obtain ⟨c, member, dark⟩ := white
      exact ⟨c, by simp [member], dark⟩
    · rw [if_neg (fun none => white (Text.trim_eq_nil.mp none))]
      exact ⟨_, rfl, rfl⟩

end Spans

end CueShell
