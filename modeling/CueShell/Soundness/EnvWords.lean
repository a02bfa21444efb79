import CueShell.Model.EnvCommand
import CueShell.Proofs.MovedTokens
import CueShell.Proofs.PlainLines
import CueShell.Soundness.ChainText
import CueShell.Soundness.QuotedWords

/-! # The words of an env command

The words of `:env set` are printed without quotes and read a second time by the handler. They survive
exactly if every word is plain and the last one does not end with white space.
-/

namespace CueShell

open Tokenizer

section Quoted

/-- A text that quotes a word. -/
inductive Quotes : List Char → List Char → Prop
  | single {word : List Char} : '\'' ∉ word → Quotes ('\'' :: word ++ ['\'']) word
  | double {body word : List Char} : doubleQuoted body = .ok (word, body, []) → Quotes ('"' :: body) word

/-- A word of the command line: the blanks in front of it beyond the first, its source and itself. -/
structure QuotedWord where
  extra : ℕ
  source : List Char
  word : String
  quotes : Quotes source word.toList

variable {body content text rest source : List Char} {word : String}

/-- What follows a quoted word is not touched. -/
theorem doubleQuoted_append (found : doubleQuoted body = .ok (content, text, rest)) (more : List Char) :
    doubleQuoted (body ++ more) = .ok (content, text, rest ++ more) := by
  fun_induction doubleQuoted body generalizing content text rest with
  | case1 => simp at found
  | case2 body =>
    obtain ⟨rfl, rfl, rfl⟩ : _ ∧ _ ∧ _ := by simpa using found
    rfl
  | case3 => simp at found
  | case4 c body ih =>
    obtain ⟨⟨content', text', rest'⟩, inner, done⟩ := Parser.bind_eq_ok.mp found
    obtain ⟨rfl, rfl, rfl⟩ : _ ∧ _ ∧ _ := by simpa using done
    rw [List.cons_append, List.cons_append, doubleQuoted, ih inner]
    rfl
  | case5 c body quote slash escape ih =>
    obtain ⟨⟨content', text', rest'⟩, inner, done⟩ := Parser.bind_eq_ok.mp found
    obtain ⟨rfl, rfl, rfl⟩ : _ ∧ _ ∧ _ := by simpa using done
    have plain : c ≠ '\\' := by
      rintro rfl
      cases body with
      | nil => exact slash rfl rfl
      | cons d body => exact escape d body rfl rfl
    rw [List.cons_append, doubleQuoted, ih inner]
    · rfl
    · exact quote
    · exact fun is => absurd is plain
    · exact fun _ _ is => absurd is plain

theorem Quotes.reads (quotes : Quotes source word.toList) : ReadsAs source (.word word) := by
  generalize same : word.toList = chars at quotes
  cases quotes with
  | single fresh =>
    subst same
    exact readsAs_singleQuote fresh
  | @double body _ quoted =>
    refine ⟨⟨'"', body, rfl, rfl⟩, ?_⟩
    intro t rest inside behind spaced shape
    have whole := doubleQuoted_append quoted rest
    refine ⟨.word word, ?_, rfl⟩
    rw [nextToken_double (show t.rest = '"' :: (body ++ rest) from shape), tokenizeQuotedString, whole, ← same]
    simp

def QuotedWord.written (quoted : QuotedWord) : WrittenPiece :=
  ⟨quoted.extra, quoted.source, .word quoted.word⟩

end Quoted

section Tokens

variable {t t' : Tokenizer} {spanned final : Spanned} {tokens read : List Spanned} {token : Token}
variable {text : String} {texts : List String} {fuel : ℕ}

/-- Behind the start of a statement no token is a command name. -/
theorem Lexeme.no_command {covered rest : List Char} {last : Option TokenClass} {flag : Bool}
    (lexeme : Lexeme t token covered rest last flag) (started : 0 < t.pos) (significant : t.lastSignificant ≠ none)
    (line : token ≠ .newline) : (∀ name, token ≠ .command name) ∧ last ≠ none := by
  cases lexeme with
  | lineFeed => simp at line
  | returnFeed => simp at line
  | blanks => exact ⟨by simp, significant⟩
  | colon shape start => exact absurd start (by simp [significant, Nat.ne_of_gt started])
  | command shape start => exact absurd start (by simp [significant, Nat.ne_of_gt started])
  | operator visible =>
    refine ⟨?_, by simp⟩
    rintro name rfl
    exact visible rfl
  | _ => simp

theorem tokenizeLoop_no_command (started : 0 < t.pos) (significant : t.lastSignificant ≠ none)
    (found : tokenizeLoop fuel t = .ok tokens) (line : ∀ spanned ∈ tokens, spanned.token ≠ .newline) :
    ∀ spanned ∈ tokens, ∀ name, spanned.token ≠ .command name := by
  induction fuel generalizing t tokens with
  | zero =>
    obtain rfl : [] = tokens := Except.ok.inj found
    simp
  | succ fuel ih =>
    rw [tokenizeLoop] at found
    obtain ⟨⟨spanned, t'⟩, next, found⟩ := Parser.bind_eq_ok.mp found
    dsimp only at found
    split_ifs at found with ended
    · obtain rfl : [spanned] = tokens := Except.ok.inj found
      simp [ended]
    obtain ⟨others, loop, done⟩ := Parser.bind_eq_ok.mp found
    obtain rfl : spanned :: others = tokens := Except.ok.inj done
    obtain ⟨first, later⟩ := List.forall_mem_cons.mp line
    rcases nextToken_emits next with ⟨-, rfl, -⟩ | ⟨token, text, rest, last, flag, lexeme, emitted⟩
    · exact absurd rfl ended
    obtain ⟨rfl, rfl⟩ := Prod.mk.inj emitted
    obtain ⟨named, significant'⟩ := lexeme.no_command started significant first
    exact List.forall_mem_cons.mpr ⟨named, ih (Nat.add_pos_left started _) significant' loop later⟩

/-- The tokens that are words. -/
theorem token_of_word (spelled : Piece.ofToken token = some (.word text)) (named : ∀ name, token ≠ .command name) :
    token = .word text ∨ ∃ kind number, token = .idRef kind number ∧ text = kind.idText number := by
  cases token with
  | word word => exact .inl (by simpa [Piece.ofToken] using spelled)
  | idRef kind number => exact .inr ⟨kind, number, rfl, by simpa [Piece.ofToken, eq_comm] using spelled⟩
  | command name => exact absurd rfl (named name)
  | _ => simp [Piece.ofToken] at spelled

theorem display_of_word (spelled : Piece.ofToken token = some (.word text))
    (named : ∀ name, token ≠ .command name) : token.display = text := by
  rcases token_of_word spelled named with rfl | ⟨kind, number, rfl, rfl⟩ <;> rfl

/-- Tokens that spell words are printed as these words. -/
theorem display_of_spells (spells : Spells read (texts.map .word))
    (named : ∀ spanned ∈ read, ∀ name, spanned.token ≠ .command name) :
    read.map (fun spanned => spanned.token.display) = texts := by
  induction read generalizing texts with
  | nil =>
    obtain rfl : texts = [] := by simpa [Spells] using spells
    rfl
  | cons spanned read ih =>
    cases texts with
    | nil => simp [Spells] at spells
    | cons text texts =>
      obtain ⟨spelled, others⟩ := spells_cons.mp spells
      obtain ⟨first, later⟩ := List.forall_mem_cons.mp named
      rw [List.map_cons, display_of_word spelled first, ih others later]

/-- The handler collects the words that the tokens spell. -/
theorem collectWords_of_spells (isFinal : final.token = .eof)
    (spells : Spells (tokens.filter fun spanned => !spanned.token.isWhitespace) (texts.map .word))
    (named : ∀ spanned ∈ tokens, ∀ name, spanned.token ≠ .command name) :
    collectWords (tokens ++ [final]) = .ok texts := by
  induction tokens generalizing texts with
  | nil =>
    obtain rfl : texts = [] := by simpa [Spells] using spells
    simp [collectWords, isFinal]
  | cons spanned tokens ih =>
    obtain ⟨first, later⟩ := List.forall_mem_cons.mp named
    cases blank : spanned.token.isWhitespace with
    | true =>
      obtain ⟨text, is⟩ : ∃ text, spanned.token = .whitespace text := by
        cases token : spanned.token <;> simp_all [Token.isWhitespace]
      rw [List.filter_cons_of_neg (by simp [blank])] at spells
      simp [collectWords, is, ih spells later]
    | false =>
      rw [List.filter_cons_of_pos (by simp [blank])] at spells
      cases texts with
      | nil => simp [Spells] at spells
      | cons text texts =>
        obtain ⟨spelled, others⟩ := spells_cons.mp spells
        rcases token_of_word spelled first with is | ⟨kind, number, is, rfl⟩ <;>
          simp [collectWords, is, ih others later, Except.map]

/-- The tokens of written words: blanks, the words and the end, and no command name. -/
theorem tokenizeLoop_words {pieces : List WrittenPiece} (reads : ∀ piece ∈ pieces, piece.Reads)
    (same : pieces.map WrittenPiece.piece = texts.map .word) (inside : t.Inside) (shape : t.rest = written pieces)
    (enough : t.rest.length < fuel) :
    ∃ tokens final, tokenizeLoop fuel t = .ok (tokens ++ [final]) ∧ final.token = .eof ∧
      Spells (tokens.filter fun spanned => !spanned.token.isWhitespace) (texts.map .word) ∧
      (∀ spanned ∈ tokens, ∀ name, spanned.token ≠ .command name) ∧
      ∀ spanned ∈ tokens.filter (fun spanned => !spanned.token.isWhitespace), 0 < spanned.span.stop := by
  obtain ⟨tokens, read, final, loop, isFinal, filtered, spells, stops⟩ :=
    tokenizeLoop_written reads inside shape enough
  rw [same, ← filtered] at spells
  have line : ∀ spanned ∈ tokens ++ [final], spanned.token ≠ .newline := by
    intro spanned member is
    rcases List.mem_append.mp member with early | last
    · have kept : spanned ∈ tokens.filter fun spanned => !spanned.token.isWhitespace :=
        List.mem_filter.mpr ⟨early, by simp [is, Token.isWhitespace]⟩
      have spelled : Piece.ofToken spanned.token ∈ (texts.map Piece.word).map some :=
        spells ▸ List.mem_map_of_mem kept
      simp [is, Piece.ofToken] at spelled
    · rw [List.mem_singleton.mp last, isFinal] at is
      simp at is
  refine ⟨tokens, final, loop, isFinal, spells, fun spanned member => ?_, filtered ▸ stops⟩
  exact tokenizeLoop_no_command inside.started inside.significant loop line spanned (List.mem_append_left _ member)

theorem collectWords_moved (offset : ℕ) (tokens : List Spanned) :
    collectWords (tokens.map (Spanned.moved offset)) = collectWords tokens := by
  induction tokens with
  | nil => rfl
  | cons spanned tokens ih =>
    have same : (spanned.moved offset).token = spanned.token := rfl
    rw [List.map_cons, collectWords, collectWords, same, ih]

/-- The words at the start of a text are read as they are behind a blank. -/
theorem tokenizeWords_written {pieces : List WrittenPiece} (reads : ∀ piece ∈ pieces, piece.Reads)
    (same : pieces.map WrittenPiece.piece = texts.map .word) (shape : ' ' :: text.toList = written pieces)
    (first : ∃ c rest, text.toList = c :: rest ∧ isBlank c = false ∧ c ≠ ':' ∧ c ≠ '(') :
    tokenizeWords text = .ok texts := by
  obtain ⟨c, rest, start, dark, noColon, noParen⟩ := first
  have inside : (⟨' ' :: text.toList, none, 1, some .other, false⟩ : Tokenizer).Inside :=
    ⟨Nat.one_pos, by simp, rfl⟩
  obtain ⟨tokens, final, loop, isFinal, spells, named, -⟩ :=
    @tokenizeLoop_words _ _ (text.toList.length + 2) _ reads same inside shape (Nat.lt_succ_self _)
  have blank : (⟨' ' :: text.toList, none, 1, some .other, false⟩ : Tokenizer).nextToken =
      .ok (⟨.whitespace " ", ⟨1, 2⟩⟩, ⟨text.toList, some ' ', 2, some .other, false⟩) :=
    (@nextToken_blanks text.toList ⟨' ' :: text.toList, none, 1, some .other, false⟩ 0
      (by simp [start, dark]) rfl).trans rfl
  have collected := collectWords_of_spells isFinal spells named
  obtain ⟨others, loop', whole⟩ := tokenizeLoop_step blank (by simp) loop
  rw [whole] at collected
  have beside : Beside 2 (Tokenizer.new text) ⟨text.toList, some ' ', 2, some .other, false⟩ := ⟨rfl, rfl, rfl, rfl⟩
  have context : SameContext (Tokenizer.new text) ⟨text.toList, some ' ', 2, some .other, false⟩ :=
    .inr ⟨c, rest, start, dark, noColon, noParen⟩
  have length : text.toList.length = text.length := String.length_toList
  rcases (beside.tokenizeLoop context (Nat.lt_succ_self _) (Nat.lt_succ_self _)).elim with
    ⟨e, e', -, fails⟩ | ⟨read, read', found, found', moved⟩
  · exact absurd (loop'.symm.trans fails) (by simp)
  · obtain rfl : others = read' := Except.ok.inj (loop'.symm.trans found')
    have found : tokenizeLoop (text.toList.length + 1) (Tokenizer.new text) = .ok read := found
    rw [tokenizeWords, tokenize, ← length, found]
    dsimp only
    rw [collectWords, moved, collectWords_moved] at collected
    exact collected

theorem inkOf_cons (piece : Piece) (pieces : List Piece) :
    inkOf (piece :: pieces) = ink piece.text.toList + inkOf pieces := by
  simp [inkOf]

/-- What the words of one token add: no ink beyond that of the token's piece. -/
theorem collectWords_cons (found : collectWords (spanned :: tokens) = .ok texts) :
    (Piece.ofToken spanned.token = none ∧ collectWords tokens = .ok texts) ∨
      ∃ text more piece, texts = text :: more ∧ collectWords tokens = .ok more ∧
        Piece.ofToken spanned.token = some piece ∧
        (piece = .word text ∨ ink piece.text.toList = ink text.toList + 1) := by
  have taken {word : String} (found : (collectWords tokens).map (word :: ·) = .ok texts) :
      ∃ more, texts = word :: more ∧ collectWords tokens = .ok more := by
    cases inner : collectWords tokens with
    | error e => simp [inner, Except.map] at found
    | ok more =>
      obtain rfl : word :: more = texts := by simpa [inner, Except.map] using found
      exact ⟨more, rfl, rfl⟩
  rw [collectWords] at found
  split at found
  · next word is =>
    obtain ⟨more, rfl, inner⟩ := taken found
    exact .inr ⟨word, more, .word word, rfl, inner, by simp [is, Piece.ofToken], .inl rfl⟩
  · next name is =>
    obtain ⟨more, rfl, inner⟩ := taken found
    refine .inr ⟨name, more, .word (":" ++ name), rfl, inner, by simp [is, Piece.ofToken], .inr ?_⟩
    simp [Piece.text, ink_cons]
  · next kind number is =>
    obtain ⟨more, rfl, inner⟩ := taken found
    exact .inr ⟨_, more, .word (kind.idText number), rfl, inner, by simp [is, Piece.ofToken], .inl rfl⟩
  · next is => exact .inl ⟨by simp [is, Piece.ofToken], found⟩
  · next is => exact .inl ⟨by simp [is, Piece.ofToken], found⟩
  · simp at found

/-- The collected words have no more ink than the tokens; if they have as much, they are all that the tokens
spell. -/
theorem collectWords_ink (found : collectWords tokens = .ok texts) :
    inkOf (texts.map .word) ≤ inkOf (piecesOf tokens) ∧
      (inkOf (piecesOf tokens) ≤ inkOf (texts.map .word) → piecesOf tokens = texts.map .word) := by
  induction tokens generalizing texts with
  | nil =>
    obtain rfl : [] = texts := by simpa [collectWords] using found
    simp [piecesOf]
  | cons spanned tokens ih =>
    rcases collectWords_cons found with ⟨silent, inner⟩ | ⟨text, more, piece, rfl, inner, spelled, same⟩
    · have skip : piecesOf (spanned :: tokens) = piecesOf tokens := by simp [piecesOf, silent]
      rw [skip]
      exact ih inner
    · have cons : piecesOf (spanned :: tokens) = piece :: piecesOf tokens := by simp [piecesOf, spelled]
      obtain ⟨below, full⟩ := ih inner
      rw [cons, inkOf_cons, List.map_cons, inkOf_cons]
      rcases same with rfl | more
      · exact ⟨by omega, fun enough => by rw [full (by omega)]⟩
      · have own : ink (Piece.word text).text.toList = ink text.toList := rfl
        exact ⟨by omega, fun enough => by omega⟩

end Tokens

section SecondReading

variable {verb word : String} {words : List String}

/-- Words that survive a second reading. -/
structure Survive (words : List String) : Prop where
  plain : ∀ word ∈ words, plainWord word.toList = true
  last : ∀ word ∈ words.getLast?, ∀ c ∈ word.toList.getLast?, Text.isWhiteSpace c = false

/-- A word without quotes. -/
def bareWord (word : String) : WrittenPiece := ⟨0, word.toList, .word word⟩

theorem written_bareWords (nonempty : words ≠ []) :
    ' ' :: (" ".intercalate words).toList = written (words.map bareWord) := by
  rw [blank_intercalate nonempty]
  simp [written, bareWord, List.flatMap_map]

theorem ink_intercalate (nonempty : words ≠ []) :
    ink (" ".intercalate words).toList = inkOf (words.map .word) := by
  have spread : ink (' ' :: (" ".intercalate words).toList) = inkOf (words.map .word) := by
    rw [blank_intercalate nonempty]
    clear nonempty
    induction words with
    | nil => rfl
    | cons word words ih =>
      rw [List.flatMap_cons, ink_append, ih, List.map_cons, inkOf_cons, ink_cons]
      rfl
  simpa [ink_cons] using spread

theorem ink_sublist {part whole : List Char} (sublist : part.Sublist whole) : ink part ≤ ink whole :=
  sublist.countP_le

/-- The words end with the last one. -/
theorem intercalate_ends (front : List String) (word : String) :
    ∃ lead, (" ".intercalate (front ++ [word])).toList = lead ++ word.toList := by
  induction front with
  | nil => exact ⟨[], by simp⟩
  | cons first front ih =>
    obtain ⟨lead, ends⟩ := ih
    refine ⟨first.toList ++ ' ' :: lead, ?_⟩
    obtain ⟨next, more, cons⟩ := List.exists_cons_of_ne_nil (show front ++ [word] ≠ [] by simp)
    rw [cons] at ends
    rw [List.cons_append, cons, String.intercalate_cons_cons, String.toList_append, String.toList_append, ends]
    simp

/-- The verbs that take words. -/
structure Verb (verb : String) : Prop where
  plain : plainWord verb.toList = true
  dark : ∀ c ∈ verb.toList.head?, Text.isWhiteSpace c = false
  first : ∀ c ∈ verb.toList.head?, c ≠ ':' ∧ c ≠ '(' ∧ c ≠ 'l'

theorem Verb.start (isVerb : Verb verb) (words : List String) :
    ∃ c rest, (" ".intercalate (verb :: words)).toList = c :: rest ∧ c ∈ verb.toList.head? := by
  obtain ⟨c, more, cons⟩ := List.exists_cons_of_ne_nil (plainWord_iff.mp isVerb.plain).1
  cases words with
  | nil => exact ⟨c, more, by simp [cons], by simp [cons]⟩
  | cons next words =>
    refine ⟨c, more ++ ' ' :: (" ".intercalate (next :: words)).toList, ?_, by simp [cons]⟩
    rw [String.intercalate_cons_cons, String.toList_append, String.toList_append, cons]
    simp

theorem Verb.trimStart (isVerb : Verb verb) (words : List String) :
    Text.trimStart (" ".intercalate (verb :: words)).toList = (" ".intercalate (verb :: words)).toList := by
  obtain ⟨c, rest, start, first⟩ := isVerb.start words
  rw [Text.trimStart, Text.dropWhile_of_head]
  rw [start]
  rintro d ⟨⟩
  exact isVerb.dark c first

/-- The text of surviving words has no white space at its ends. -/
theorem Survive.trim (survive : Survive words) (isVerb : Verb verb) (nonempty : words ≠ []) :
    Text.trim (" ".intercalate (verb :: words)).toList = (" ".intercalate (verb :: words)).toList := by
  rcases List.eq_nil_or_concat words with none | ⟨front, word, rfl⟩
  · exact absurd none nonempty
  rw [List.concat_eq_append] at survive ⊢
  have filled := (plainWord_iff.mp (survive.plain word (by simp))).1
  obtain ⟨lead, ends⟩ := intercalate_ends (verb :: front) word
  rw [List.cons_append] at ends
  refine Text.trim_of_ends ?_ ?_
  · obtain ⟨c, rest, start, first⟩ := isVerb.start (front ++ [word])
    rw [start]
    rintro d ⟨⟩
    exact isVerb.dark c first
  · rw [ends, List.getLast?_append_of_ne_nil _ filled]
    exact survive.last word (by simp)

/-- A text that ends with white space loses ink by trimming. -/
theorem ink_trim_lt {text lead : List Char} {c : Char} (kept : Text.trimStart text = text)
    (ends : text = lead ++ [c]) (white : Text.isWhiteSpace c = true) (full : c ≠ ' ') :
    ink (Text.trim text) < ink text := by
  have part : (Text.trim text).Sublist lead := by
    rw [Text.trim, kept, Text.trimEnd, ends, List.reverse_append, List.reverse_singleton, List.singleton_append,
      List.dropWhile_cons_of_pos white]
    have sub := (List.dropWhile_sublist (l := lead.reverse) Text.isWhiteSpace).reverse
    rwa [List.reverse_reverse] at sub
  calc ink (Text.trim text) ≤ ink lead := ink_sublist part
    _ < ink lead + 1 := Nat.lt_succ_self _
    _ = ink text := by simp [ends, ink_cons, full]

theorem ink_trim_le (text : List Char) : ink (Text.trim text) ≤ ink text := by
  refine ink_sublist ?_
  have sub := (List.dropWhile_sublist (l := (Text.trimStart text).reverse) Text.isWhiteSpace).reverse
  rw [List.reverse_reverse] at sub
  exact sub.trans (List.dropWhile_sublist _)

/-- The handler reads the words back exactly if they survive. -/
theorem tokenizeWords_iff (isVerb : Verb verb) (nonempty : words ≠ []) :
    tokenizeWords (String.ofList (Text.trim (" ".intercalate (verb :: words)).toList)) = .ok (verb :: words) ↔
      Survive words := by
  constructor
  · intro read
    rw [tokenizeWords] at read
    split at read
    · simp at read
    next tokens found =>
    -- no ink may be lost, neither by trimming nor by tokenizing
    obtain ⟨words_le, words_eq⟩ := collectWords_ink read
    obtain ⟨tokens_le, plain⟩ := tokenizeLoop_ink found
    rw [Tokenizer.new, String.toList_ofList] at tokens_le plain
    dsimp only at tokens_le plain
    have whole := ink_intercalate (List.cons_ne_nil verb words)
    have trim_le := ink_trim_le (" ".intercalate (verb :: words)).toList
    have pieces := words_eq (by omega)
    have plain := plain (by omega)
    rw [pieces] at plain
    have plainWords : ∀ word ∈ words, plainWord word.toList = true := fun word member =>
      plain (.word word) (List.mem_map_of_mem (List.mem_cons_of_mem _ member))
    refine ⟨plainWords, fun word last c final => ?_⟩
    by_contra white
    obtain ⟨front, rfl⟩ := List.getLast?_eq_some_iff.mp last
    obtain ⟨lead, ends⟩ := intercalate_ends (verb :: front) word
    obtain ⟨inner, is⟩ := List.getLast?_eq_some_iff.mp final
    have full : c ≠ ' ' := by
      rintro rfl
      have delimiters := (plainWord_iff.mp (plainWords word (by simp))).2.1
      simpa [isDelimiter] using delimiters ' ' (by simp [is])
    rw [is, ← List.append_assoc] at ends
    have lost := ink_trim_lt (isVerb.trimStart (front ++ [word])) ends (Bool.eq_true_of_not_eq_false white) full
    omega
  · intro survive
    rw [survive.trim isVerb nonempty, String.ofList_toList]
    obtain ⟨c, rest, start, first⟩ := isVerb.start words
    refine tokenizeWords_written (fun piece member => ?_) ?_ (written_bareWords (List.cons_ne_nil _ _))
      ⟨c, rest, start, ?_, (isVerb.first c first).1, (isVerb.first c first).2.1⟩
    · obtain ⟨word, inside, rfl⟩ := List.mem_map.mp member
      have plain : (Piece.word word).Plain := by
        rcases List.mem_cons.mp inside with rfl | later
        · exact isVerb.plain
        · exact survive.plain word later
      exact plain.reads
    · simp [bareWord]
    · by_contra blank
      have white := isWhiteSpace_of_isBlank (Bool.eq_true_of_not_eq_false blank)
      simp [isVerb.dark c first] at white

end SecondReading

section FirstReading

variable {verb : String} {words : List QuotedWord}

/-- The input of an env command with quoted words. -/
def envInput (verb : String) (words : List QuotedWord) : String :=
  ":env " ++ verb ++ String.ofList (written (words.map QuotedWord.written))

theorem envInput_eq (verb : String) (words : List QuotedWord) :
    envInput verb words = commandText "env" (bareWord verb :: words.map QuotedWord.written) := by
  rw [← String.toList_inj]
  simp [envInput, commandText, written_cons, bareWord]

/-- A command that takes a text gets the text of its tokens. -/
theorem parseSingleStatement_text {name : String} {spec : CommandSpec} {tokens : List Spanned} (input : List Char)
    (found : commandSpec name = some spec) (kind : spec.argKind = .optionalText)
    (noParams : (⟨tokens, input⟩ : Parser).peek ≠ .modeParenOpen)
    (visible : " ".intercalate (tokens.map fun spanned => spanned.token.display) ≠ "") :
    ∃ span, (⟨commandToken name :: tokens, input⟩ : Parser).parseSingleStatement = .ok (.command name []
      (.text (" ".intercalate (tokens.map fun spanned => spanned.token.display))) span) := by
  have known : (⟨tokens, input⟩ : Parser).commandSpecOrError name = .ok spec := by
    rw [Parser.commandSpecOrError, found]
  have read : (⟨tokens, input⟩ : Parser).parseArgumentForCommand name spec =
      .ok (.text (" ".intercalate (tokens.map fun spanned => spanned.token.display)), ⟨[], input⟩) := by
    rw [Parser.parseArgumentForCommand, kind]
    dsimp only [Parser.consumeRemainingText]
    rw [if_neg visible]
  have peeked : (⟨commandToken name :: tokens, input⟩ : Parser).peek = .command name := rfl
  have advanced : (⟨commandToken name :: tokens, input⟩ : Parser).advance = ⟨tokens, input⟩ := rfl
  have statement : (⟨commandToken name :: tokens, input⟩ : Parser).parseStatement =
      .ok (.command name [] (.text (" ".intercalate (tokens.map fun spanned => spanned.token.display)))
        ⟨0, Text.byteLength input⟩, ⟨[], input⟩) := by
    rw [Parser.parseStatement]
    dsimp only
    rw [peeked]
    dsimp only
    rw [Parser.parseCommand]
    dsimp only
    rw [advanced, known, Parser.ok_bind, if_neg noParams, Parser.ok_bind]
    dsimp only
    rw [read, Parser.ok_bind]
    rfl
  refine ⟨⟨0, Text.byteLength input⟩, ?_⟩
  rw [Parser.parseSingleStatement, statement, Parser.ok_bind]
  rfl

/-- The argument of an env command is the text of its words without the quotes. -/
theorem parse_envInput (isVerb : Verb verb) :
    ∃ span, Parser.parse (envInput verb words) =
      .ok (.single (.command "env" [] (.text (" ".intercalate (verb :: words.map QuotedWord.word))) span)) := by
  have isName : CommandName "env" := ⟨by decide, List.all_iff_forall_prop.mp rfl⟩
  have reads : ∀ piece ∈ bareWord verb :: words.map QuotedWord.written, piece.Reads := by
    refine List.forall_mem_cons.mpr ⟨?_, List.forall_mem_map.mpr fun quoted _ => quoted.quotes.reads⟩
    have plain : (Piece.word verb).Plain := isVerb.plain
    exact plain.reads
  have same : (bareWord verb :: words.map QuotedWord.written).map WrittenPiece.piece =
      (verb :: words.map QuotedWord.word).map .word := by
    simp [bareWord, QuotedWord.written, Function.comp_def]
  have inside : (behindCommand "env" (written (bareWord verb :: words.map QuotedWord.written))).Inside :=
    ⟨Nat.add_pos_left Nat.one_pos _, by simp [behindCommand], rfl⟩
  have enough : (written (bareWord verb :: words.map QuotedWord.written)).length < (envInput verb words).length := by
    rw [envInput_eq, ← String.length_toList, commandText, String.toList_ofList, List.length_cons,
      List.length_append]
    omega
  obtain ⟨tokens, final, loop, isFinal, spells, named, stops⟩ := tokenizeLoop_words reads same inside rfl enough
  generalize kept : tokens.filter (fun spanned => !spanned.token.isWhitespace) = read at spells stops
  have tokenized : tokenizeForParser (envInput verb words) = .ok ((commandToken "env" :: read) ++ [final]) := by
    have visible : (commandToken "env").token.isWhitespace = false := rfl
    have last : final.token.isWhitespace = false := by rw [isFinal]; rfl
    rw [envInput_eq] at loop ⊢
    rw [tokenizeForParser, tokenize_commandText isName, loop, Parser.ok_bind]
    simp [List.filter_append, kept, visible, last]
  have shown : read.map (fun spanned => spanned.token.display) = verb :: words.map QuotedWord.word :=
    display_of_spells spells fun spanned member =>
      named spanned (List.mem_filter.mp (kept ▸ member)).1
  have all : Spells (commandToken "env" :: read) (.word (":" ++ "env") :: (verb :: words.map QuotedWord.word).map .word) :=
    spells_cons.mpr ⟨rfl, spells⟩
  obtain ⟨last, isLast⟩ : ∃ last, (commandToken "env" :: read).getLast? = some last :=
    ⟨_, List.getLast?_eq_some_getLast (List.cons_ne_nil _ _)⟩
  have stop : 0 < last.span.stop := by
    rcases List.mem_cons.mp (List.mem_of_getLast? isLast) with rfl | member
    · exact Nat.add_pos_left Nat.one_pos _
    · exact stops last member
  obtain ⟨chunk, pushed, chunkTokens⟩ := pushScriptChunk_visible ':'
    ("env".toList ++ written (bareWord verb :: words.map QuotedWord.written)) (List.head?_cons ..) isLast rfl stop
    (by decide)
  have split : splitTopLevelStatements ((commandToken "env" :: read) ++ [final]) (envInput verb words).toList =
      [chunk] := by
    rw [splitTopLevelStatements, splitLoop_of_spells all, List.nil_append, splitLoop, isFinal, envInput_eq,
      commandText, String.toList_ofList]
    exact pushed
  have visible : " ".intercalate (read.map fun spanned => spanned.token.display) ≠ "" := by
    obtain ⟨c, rest, start, -⟩ := isVerb.start (words.map QuotedWord.word)
    rw [shown]
    intro none
    simp [none] at start
  have noParams : (⟨read, (envInput verb words).toList⟩ : Parser).peek ≠ .modeParenOpen := by
    cases read with
    | nil => simp [Parser.peek]
    | cons first more =>
      have spelled := (spells_cons.mp spells).1
      intro is
      simp [show first.token = .modeParenOpen from is, Piece.ofToken] at spelled
  obtain ⟨span, statement⟩ := parseSingleStatement_text (envInput verb words).toList
    (show commandSpec "env" = some ⟨"env", .optionalText, ":env [subcommand]"⟩ from rfl) rfl noParams visible
  rw [shown] at statement
  refine ⟨span, ?_⟩
  rw [Parser.parse, tokenized, Parser.ok_bind, Parser.parseTokens, split]
  dsimp only
  rw [chunkTokens, statement]
  rfl

theorem readEnvCommand_envInput (isVerb : Verb verb) (mode : Mode) :
    readEnvCommand (envInput verb words) mode =
      some (parseEnvCommand (some (" ".intercalate (verb :: words.map QuotedWord.word)))) := by
  obtain ⟨span, parsed⟩ := @parse_envInput verb words isVerb
  have visible : " ".intercalate (verb :: words.map QuotedWord.word) ≠ "" := by
    obtain ⟨c, rest, start, -⟩ := isVerb.start (words.map QuotedWord.word)
    intro none
    simp [none] at start
  have resolved : parseCommand (envInput verb words) mode =
      some (.ok (.single (.env (some (" ".intercalate (verb :: words.map QuotedWord.word)))))) := by
    rw [CueShell.parseCommand, parsed]
    simp only [Resolver.resolve, Resolver.resolveStatement, Resolver.resolveCommand, extractOptionalText,
      if_neg visible]
    rfl
  rw [readEnvCommand, resolved]

theorem verb_set : Verb "set" :=
  ⟨by decide, fun c first => Option.some.inj first ▸ rfl, fun c first => Option.some.inj first ▸ by decide⟩

theorem verb_unset : Verb "unset" :=
  ⟨by decide, fun c first => Option.some.inj first ▸ rfl, fun c first => Option.some.inj first ▸ by decide⟩

theorem Verb.trim_start (isVerb : Verb verb) (texts : List String) :
    ∃ c rest, Text.trim (" ".intercalate (verb :: texts)).toList = c :: rest ∧ c ∈ verb.toList.head? := by
  obtain ⟨c, rest, start, first⟩ := isVerb.start texts
  have part : Text.trim (" ".intercalate (verb :: texts)).toList <+: c :: rest := by
    rw [Text.trim, isVerb.trimStart, start, Text.trimEnd, ← List.reverse_suffix, List.reverse_reverse]
    exact List.dropWhile_suffix _
  have filled : Text.trim (" ".intercalate (verb :: texts)).toList ≠ [] := by
    intro none
    have white := Text.trim_eq_nil.mp none c (by simp [start])
    simp [isVerb.dark c first] at white
  obtain ⟨d, more, cons⟩ := List.exists_cons_of_ne_nil filled
  obtain ⟨rfl, -⟩ := List.cons_prefix_cons.mp (cons ▸ part)
  exact ⟨d, more, cons, first⟩

theorem envCommandOfWords_set {read texts : List String} :
    envCommandOfWords read = .ok (.set texts) ↔ read = "set" :: texts ∧ texts ≠ [] := by
  cases read with
  | nil => simp [envCommandOfWords]
  | cons verb rest =>
    rw [envCommandOfWords]
    split_ifs with set none unset none'
    · simp_all
    · simp only [Except.ok.injEq, EnvCommand.set.injEq, List.cons.injEq, set, true_and]
      exact ⟨fun same => ⟨same, same ▸ none⟩, fun same => same.1⟩
    · simp [set]
    · split <;> simp [set]
    · simp [set]

theorem envCommandOfWords_unset {read texts : List String} :
    envCommandOfWords read = .ok (.unset texts) ↔
      read = "unset" :: texts ∧ texts ≠ [] ∧ ∀ key ∈ texts, key ≠ "" ∧ '=' ∉ key.toList := by
  cases read with
  | nil => simp [envCommandOfWords]
  | cons verb rest =>
    rw [envCommandOfWords]
    split_ifs with set none unset none'
    · simp_all
    · simp [set]
    · simp_all
    · split
      · next key found =>
        have bad : key = "" ∨ '=' ∈ key.toList := by simpa using List.find?_some found
        have member := List.mem_of_find?_eq_some found
        simp only [reduceCtorEq, List.cons.injEq, false_iff, not_and]
        rintro ⟨-, rfl⟩ - fine
        obtain ⟨filled, clean⟩ := fine key member
        exact bad.elim filled clean
      · next found =>
        have fine : ∀ key ∈ rest, key ≠ "" ∧ '=' ∉ key.toList := by simpa using found
        simp only [Except.ok.injEq, EnvCommand.unset.injEq, List.cons.injEq, unset, true_and]
        exact ⟨fun same => ⟨same, same ▸ none', same ▸ fine⟩, fun same => same.1⟩
    · simp [unset]

/-- The handler reads the words behind a verb from the trimmed text. -/
theorem parseEnvCommand_words (isVerb : Verb verb) (texts : List String) :
    parseEnvCommand (some (" ".intercalate (verb :: texts))) =
      (tokenizeWords (String.ofList (Text.trim (" ".intercalate (verb :: texts)).toList)) >>=
        envCommandOfWords) := by
  obtain ⟨c, rest, start, first⟩ := isVerb.trim_start texts
  have other : ¬ (String.ofList (c :: rest) = "" ∨ String.ofList (c :: rest) = "list") := by
    rw [← String.toList_inj, ← String.toList_inj, String.toList_ofList]
    rintro (same | same)
    · simp at same
    · exact (isVerb.first c first).2.2 (List.cons.inj same).1
  rw [parseEnvCommand, start, if_neg other]
  cases tokenizeWords (String.ofList (c :: rest)) <;> rfl

theorem readEnvCommand_ok (isVerb : Verb verb) (mode : Mode) (command : EnvCommand) :
    readEnvCommand (envInput verb words) mode = some (.ok command) ↔
      ∃ read, tokenizeWords (String.ofList
          (Text.trim (" ".intercalate (verb :: words.map QuotedWord.word)).toList)) = .ok read ∧
        envCommandOfWords read = .ok command := by
  rw [readEnvCommand_envInput isVerb, parseEnvCommand_words isVerb, Option.some_inj, Parser.bind_eq_ok]

/-- The words of an env command survive exactly if they survive without their quotes. -/
theorem env_words (words : List QuotedWord) (nonempty : words ≠ []) (mode : Mode) :
    (readEnvCommand (envInput "set" words) mode = some (.ok (.set (words.map QuotedWord.word))) ↔
        Survive (words.map QuotedWord.word)) ∧
      ((∀ quoted ∈ words, quoted.word ≠ "" ∧ '=' ∉ quoted.word.toList) →
        (readEnvCommand (envInput "unset" words) mode = some (.ok (.unset (words.map QuotedWord.word))) ↔
          Survive (words.map QuotedWord.word))) := by
  have texts : words.map QuotedWord.word ≠ [] := by simpa using nonempty
  constructor
  · rw [readEnvCommand_ok verb_set, ← tokenizeWords_iff verb_set texts]
    constructor
    · rintro ⟨read, found, same⟩
      obtain ⟨rfl, -⟩ := envCommandOfWords_set.mp same
      exact found
    · exact fun found => ⟨_, found, envCommandOfWords_set.mpr ⟨rfl, texts⟩⟩
  · intro keys
    rw [readEnvCommand_ok verb_unset, ← tokenizeWords_iff verb_unset texts]
    constructor
    · rintro ⟨read, found, same⟩
      obtain ⟨rfl, -⟩ := envCommandOfWords_unset.mp same
      exact found
    · exact fun found => ⟨_, found, envCommandOfWords_unset.mpr ⟨rfl, texts, List.forall_mem_map.mpr keys⟩⟩

theorem env_words_plain : readEnvCommand (envInput "set" [⟨0, singleQuote "A=1", "A=1", .single (by decide)⟩]) .job =
      some (.ok (.set ["A=1"])) ∧
    readEnvCommand (envInput "unset" [⟨0, "\"A\"".toList, "A", .double rfl⟩]) .job =
      some (.ok (.unset ["A"])) := by
  refine ⟨(env_words [⟨0, singleQuote "A=1", "A=1", .single (by decide)⟩] (by simp) .job).1.mpr ⟨by decide, ?_⟩,
    ((env_words [⟨0, "\"A\"".toList, "A", .double rfl⟩] (by simp) .job).2 (by decide)).mpr ⟨by decide, ?_⟩⟩
  · rintro word ⟨⟩ c ⟨⟩
    rfl
  · rintro word ⟨⟩ c ⟨⟩
    rfl

/-- A value with a blank becomes two assignments. -/
theorem env_word_split : ∃ words, words.map QuotedWord.word = ["A=b c"] ∧
    envInput "set" words = ":env set 'A=b c'" ∧
    readEnvCommand (envInput "set" words) .job = some (.ok (.set ["A=b", "c"])) ∧
    readEnvCommand (envInput "set" words) .job ≠ some (.ok (.set (words.map QuotedWord.word))) := by
  refine ⟨[⟨0, singleQuote "A=b c", "A=b c", .single (by decide)⟩], rfl, by decide, ?_, ?_⟩
  · decide
  · decide

end FirstReading

end CueShell
