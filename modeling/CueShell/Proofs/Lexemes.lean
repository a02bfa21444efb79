import CueShell.Proofs.ChainLayout
import Mathlib.Data.List.Induction
import Mathlib.Data.List.TakeWhile

/-! # Plain words

A word is plain if the tokenizer reads it back from its own unquoted text. The measure `ink` counts
the characters of a text other than blanks: a token never has more ink than the text it covers, and
a word with as much ink as its text is plain.
-/

namespace CueShell

/-- No operator starts inside the text. -/
def operatorFree : List Char → Bool
  | [] => true
  | c :: rest => (startsWithOperator (c :: rest)).isNone && operatorFree rest

/-- An ID reference at the head of the word is the whole word, without leading zeros. -/
def idStable (word : List Char) : Bool :=
  match idRefAt word with
  | none => true
  | some (kind, number, _) => (kind.idText number).toList == word

/-- A word that the tokenizer reads back from its own text. -/
def plainWord (word : List Char) : Bool :=
  word ≠ [] && word.all (!isDelimiter ·) && word.head? != some '\'' && operatorFree word &&
    idStable word

theorem plainWord_iff {word : List Char} : plainWord word = true ↔
    word ≠ [] ∧ (∀ c ∈ word, isDelimiter c = false) ∧ word.head? ≠ some '\'' ∧
      operatorFree word = true ∧ idStable word = true := by
  simp [plainWord, and_assoc]

/-- Every word of a piece is plain. -/
def Piece.Plain : Piece → Prop
  | .word text => plainWord text.toList = true
  | _ => True

section Ink

/-- The number of characters other than blanks. -/
def ink (text : List Char) : ℕ := text.countP (· ≠ ' ')

@[simp] theorem ink_nil : ink [] = 0 := rfl

@[simp] theorem ink_append (front back : List Char) : ink (front ++ back) = ink front + ink back := by
  simp [ink]

theorem ink_cons (c : Char) (text : List Char) : ink (c :: text) = ink text + if c = ' ' then 0 else 1 := by
  by_cases blank : c = ' ' <;> simp [ink, blank]

theorem ink_cons_le (c : Char) (text : List Char) : ink text ≤ ink (c :: text) := by
  rw [ink_cons]
  exact Nat.le_add_right _ _

theorem ink_of_all {text : List Char} (full : ∀ c ∈ text, c ≠ ' ') : ink text = text.length := by
  rw [ink, List.countP_eq_length]
  simpa using full

theorem ink_replicate (count : ℕ) : ink (List.replicate count ' ') = 0 := by
  simp [ink, List.countP_replicate]

end Ink

section Digits

theorem numeral_toDigits (number : ℕ) : Text.numeral (Nat.toDigits 10 number) = number :=
  Nat.ofDigitChars_ten_toDigits

theorem isDigit_toDigits (number : ℕ) : ∀ c ∈ Nat.toDigits 10 number, c.isDigit = true :=
  fun _ member => Nat.isDigit_of_mem_toDigits (by omega) (by omega) member

theorem digit_value_lt {c : Char} (digit : c.isDigit = true) : c.toNat - '0'.toNat < 10 := by
  have bounds := Char.isDigit_iff_toNat.mp digit
  have nine : '9'.toNat = 57 := rfl
  have zero : '0'.toNat = 48 := rfl
  omega

theorem numeral_lt {digits : List Char} (all : ∀ c ∈ digits, c.isDigit = true) :
    Text.numeral digits < 10 ^ digits.length := by
  induction digits using List.reverseRecOn with
  | nil => simp [Text.numeral]
  | append_singleton digits last ih =>
    have front := ih fun c member => all c (by simp [member])
    have unit := digit_value_lt (all last (by simp))
    have split : Text.numeral (digits ++ [last]) =
        10 * Text.numeral digits + (last.toNat - '0'.toNat) := by
      simp [Text.numeral]
    rw [split, List.length_append, List.length_singleton, Nat.pow_succ]
    omega

theorem idText_toList (kind : IdKind) (number : ℕ) :
    (kind.idText number).toList = kind.display.toList ++ Nat.toDigits 10 number := by
  simp [IdKind.idText, Nat.toList_repr]

end Digits

section IdRefs

variable {word rest digits : List Char} {kind : IdKind} {number : ℕ}

/-- The text goes on with a character that no identifier contains, or ends. -/
def Breaks (rest : List Char) : Prop := ∀ c ∈ rest.head?, isIdentChar c = false

theorem isIdentChar_of_isDigit {c : Char} (digit : c.isDigit = true) : isIdentChar c = true := by
  simp [isIdentChar, Char.isAlphanum, digit]

theorem Breaks.takeWhile (breaks : Breaks rest) {p : Char → Bool}
    (ident : ∀ c, p c = true → isIdentChar c = true) (front : List Char) :
    (front ++ rest).takeWhile p = front.takeWhile p := by
  have none : rest.takeWhile p = [] := by
    cases rest with
    | nil => rfl
    | cons c rest =>
      have stop := breaks c (by simp)
      rw [List.takeWhile_cons_of_neg]
      intro found
      simp [ident c found] at stop
  rw [List.takeWhile_append, none]
  split
  · next whole =>
    rw [List.append_nil, (List.takeWhile_prefix p).eq_of_length whole]
  · rfl

theorem Breaks.dropWhile (breaks : Breaks rest) {p : Char → Bool}
    (ident : ∀ c, p c = true → isIdentChar c = true) (front : List Char) :
    (front ++ rest).dropWhile p = front.dropWhile p ++ rest := by
  have taken := breaks.takeWhile ident front
  have whole : (front ++ rest).takeWhile p ++ (front ++ rest).dropWhile p = front ++ rest :=
    List.takeWhile_append_dropWhile
  have part : front.takeWhile p ++ (front.dropWhile p ++ rest) = front ++ rest := by
    rw [← List.append_assoc, List.takeWhile_append_dropWhile]
  rw [taken] at whole
  exact List.append_cancel_left (whole.trans part.symm)

theorem tryIdKind_append (breaks : Breaks rest) (nonempty : word ≠ []) :
    tryIdKind (word ++ rest) = tryIdKind word := by
  match word with
  | [] => exact (nonempty rfl).elim
  | first :: second :: more =>
    by_cases job : first = 'J'
    · subst job
      rfl
    · by_cases cron : first = 'C'
      · subst cron
        rfl
      · simp [tryIdKind, job, cron]
  | [first] =>
    cases rest with
    | nil => rfl
    | cons c rest =>
      have digit : c.isDigit = false := by
        have stop := breaks c (by simp)
        by_contra found
        simp [isIdentChar_of_isDigit (by simpa using found)] at stop
      by_cases job : first = 'J'
      · subst job
        simp [tryIdKind, digit]
      · by_cases cron : first = 'C'
        · subst cron
          simp [tryIdKind, digit]
        · simp [tryIdKind, job, cron]

theorem idRefAt_append (breaks : Breaks rest) (nonempty : word ≠ []) :
    idRefAt (word ++ rest) = idRefAt word := by
  have tail : (word ++ rest).tail = word.tail ++ rest := List.tail_append_of_ne_nil nonempty
  have ident : ∀ c : Char, c.isDigit = true → isIdentChar c = true :=
    fun _ digit => isIdentChar_of_isDigit digit
  have next : ((word.tail.dropWhile Char.isDigit ++ rest).head?.all fun c => !isIdentChar c) =
      ((word.tail.dropWhile Char.isDigit).head?.all fun c => !isIdentChar c) := by
    cases word.tail.dropWhile Char.isDigit with
    | cons c more => rfl
    | nil =>
      cases rest with
      | nil => rfl
      | cons c rest => simp [breaks c (by simp)]
  simp only [idRefAt, tryIdKind_append breaks nonempty, tail, breaks.takeWhile ident,
    breaks.dropWhile ident, next]

theorem tryIdKind_eq_some (found : tryIdKind word = some kind) :
    ∃ digit more, word = kind.display.toList ++ digit :: more := by
  match word with
  | [] => simp [tryIdKind] at found
  | [first] => simp [tryIdKind] at found
  | first :: digit :: more =>
    by_cases job : first = 'J'
    · subst job
      simp only [tryIdKind, Option.ite_none_right_eq_some, Option.some.injEq] at found
      obtain ⟨-, rfl⟩ := found
      exact ⟨digit, more, rfl⟩
    · by_cases cron : first = 'C'
      · subst cron
        simp only [tryIdKind, Option.ite_none_right_eq_some, Option.some.injEq] at found
        obtain ⟨-, rfl⟩ := found
        exact ⟨digit, more, rfl⟩
      · simp [tryIdKind, job, cron] at found

/-- An ID reference is its prefix letter and its digits. -/
theorem idRefAt_eq_some (found : idRefAt word = some (kind, number, digits)) :
    word.take (digits.length + 1) = kind.display.toList ++ digits ∧ number = Text.numeral digits ∧
      number < 2 ^ 32 ∧ digits ≠ [] ∧ (∀ c ∈ digits, c.isDigit = true) := by
  rw [idRefAt] at found
  cases announced : tryIdKind word with
  | none => simp [announced] at found
  | some letter =>
    simp only [announced, Option.ite_none_right_eq_some, Option.map_eq_some_iff, Prod.mk.injEq] at found
    obtain ⟨-, value, parsed, rfl, rfl, rfl⟩ := found
    simp only [Text.parseDigits, Option.ite_none_right_eq_some, Option.some.injEq] at parsed
    obtain ⟨⟨nonempty, -, small⟩, rfl⟩ := parsed
    obtain ⟨digit, more, rfl⟩ := tryIdKind_eq_some announced
    refine ⟨?_, rfl, small, nonempty, fun c member => List.mem_takeWhile_imp member⟩
    have front : (digit :: more).take ((digit :: more).takeWhile Char.isDigit).length =
        (digit :: more).takeWhile Char.isDigit :=
      List.prefix_iff_eq_take.mp (List.takeWhile_prefix _) |>.symm
    cases letter <;> simpa [IdKind.display] using front

/-- An ID text has an ID reference that covers it. -/
theorem idRefAt_idText (small : number < 2 ^ 32) :
    idRefAt (kind.idText number).toList = some (kind, number, Nat.toDigits 10 number) := by
  have digits := isDigit_toDigits number
  have whole : (Nat.toDigits 10 number).takeWhile Char.isDigit = Nat.toDigits 10 number :=
    List.takeWhile_eq_self_iff.mpr digits
  have gone : (Nat.toDigits 10 number).dropWhile Char.isDigit = [] :=
    List.dropWhile_eq_nil_iff.mpr digits
  have parsed : Text.parseDigits (2 ^ 32) (Nat.toDigits 10 number) = some number := by
    rw [Text.parseDigits, if_pos ⟨Nat.toDigits_ne_nil, List.all_eq_true.mpr digits,
      by rwa [numeral_toDigits]⟩, numeral_toDigits]
  have announced : tryIdKind (kind.display.toList ++ Nat.toDigits 10 number) = some kind := by
    obtain ⟨first, more, cons⟩ := List.exists_cons_of_ne_nil (@Nat.toDigits_ne_nil number 10)
    have digit := digits first (by simp [cons])
    cases kind <;> simp [IdKind.display, tryIdKind, cons, digit]
  have tail : (kind.display.toList ++ Nat.toDigits 10 number).tail = Nat.toDigits 10 number := by
    cases kind <;> rfl
  simp only [idText_toList, idRefAt, announced, tail, whole, gone, parsed, List.head?_nil,
    Option.all_none, if_true, Option.map_some]

theorem idText_ident : ∀ c ∈ (kind.idText number).toList, isIdentChar c = true := by
  rw [idText_toList]
  intro c member
  rcases List.mem_append.mp member with letter | digit
  · cases kind <;> simp_all [IdKind.display, isIdentChar]
  · exact isIdentChar_of_isDigit (isDigit_toDigits number c digit)

end IdRefs

section Operators

variable {word rest text : List Char}

def operatorTexts : List (List Char) :=
  [['|', '&', '>'], ['|', '!', '>'], ['|', '|', '|'], ['|', '?', '|'], ['-', '>'], ['~', '>'],
    ['|', '>'], ['&', '&'], ['|', '|']]

theorem startsWithOperator_eq_none :
    startsWithOperator text = none ↔ ∀ operator ∈ operatorTexts, ¬ operator <+: text := by
  fun_cases startsWithOperator text <;> simp_all [operatorTexts, List.cons_prefix_iff]

theorem startsWithOperator_of_append (free : startsWithOperator (text ++ rest) = none) :
    startsWithOperator text = none := by
  rw [startsWithOperator_eq_none] at free ⊢
  exact fun operator member front => free operator member (front.trans (List.prefix_append _ _))

/-- The text goes on with a blank, or ends. -/
def Spaced (rest : List Char) : Prop := ∀ c ∈ rest.head?, c = ' '

theorem Spaced.breaks (spaced : Spaced rest) : Breaks rest := by
  intro c first
  rw [spaced c first]
  rfl

theorem prefix_of_spaced (spaced : Spaced rest) {operator : List Char} (full : ' ' ∉ operator)
    (front : operator <+: text ++ rest) : operator <+: text := by
  obtain ⟨after, split⟩ := front
  rcases List.append_eq_append_iff.mp split with ⟨more, rfl, -⟩ | ⟨more, rfl, extra⟩
  · exact List.prefix_append _ _
  · cases more with
    | nil => simp
    | cons c more =>
      have blank := spaced c (by simp [extra])
      simp [blank] at full

theorem startsWithOperator_append (spaced : Spaced rest) (free : startsWithOperator text = none) :
    startsWithOperator (text ++ rest) = none := by
  rw [startsWithOperator_eq_none] at free ⊢
  have full : ∀ operator ∈ operatorTexts, ' ' ∉ operator := by decide
  intro operator member front
  exact free operator member (prefix_of_spaced spaced (full operator member) front)

theorem startsWithOperator_head {c : Char} {found : Token × OperatorBoundary}
    (starts : startsWithOperator (c :: text) = some found) : isIdentChar c = false := by
  by_contra ident
  have none : startsWithOperator (c :: text) = none := by
    rw [startsWithOperator_eq_none]
    intro operator member front
    have heads : ∀ operator ∈ operatorTexts, ∃ d more, operator = d :: more ∧ isIdentChar d = false := by
      simp [operatorTexts, isIdentChar]
    obtain ⟨d, more, rfl, plain⟩ := heads operator member
    rw [(List.cons_prefix_cons.mp front).1] at plain
    exact ident plain
  simp [none] at starts

end Operators

section Words

variable {word rest text content : List Char} {inModeParams : Bool} {before : Option Char} {pos : ℕ}

theorem isIdentChar_of_isDelimiter {c : Char} (delimiter : isDelimiter c = true) :
    isIdentChar c = false := by
  simp only [isDelimiter, Bool.or_eq_true, beq_iff_eq, or_assoc] at delimiter
  rcases delimiter with rfl | rfl | rfl | rfl | rfl | rfl | rfl <;> rfl

/-- A gobbled word is a maximal run without delimiters and operators. -/
theorem gobbleWord_ok (found : gobbleWord inModeParams before pos text = .ok (word, rest)) :
    text = word ++ rest ∧ (∀ c ∈ word, isDelimiter c = false) ∧ operatorFree word = true ∧
      Breaks rest := by
  fun_induction gobbleWord inModeParams before pos text generalizing word with
  | case1 => simp_all [operatorFree, Breaks]
  | case2 before pos c text stop =>
    simp only [Except.ok.injEq, Prod.mk.injEq] at found
    obtain ⟨rfl, rfl⟩ := found
    refine ⟨rfl, by simp, rfl, ?_⟩
    intro d first
    obtain rfl : c = d := by simpa using first
    rcases Bool.or_eq_true_iff.mp stop with delimiter | parameter
    · exact isIdentChar_of_isDelimiter delimiter
    · simp only [Bool.and_eq_true, Bool.or_eq_true, beq_iff_eq] at parameter
      rcases parameter.2 with rfl | rfl <;> rfl
  | case3 => simp at found
  | case4 before pos c text go token boundary starts fine =>
    simp only [Except.ok.injEq, Prod.mk.injEq] at found
    obtain ⟨rfl, rfl⟩ := found
    refine ⟨rfl, by simp, rfl, ?_⟩
    intro d first
    obtain rfl : c = d := by simpa using first
    exact startsWithOperator_head starts
  | case5 before pos c text go free ih =>
    obtain ⟨⟨more, after⟩, inner, done⟩ := Parser.bind_eq_ok.mp found
    simp only [Except.ok.injEq, Prod.mk.injEq] at done
    obtain ⟨rfl, rfl⟩ := done
    obtain ⟨rfl, plain, free', breaks⟩ := ih inner
    simp only [Bool.or_eq_true, not_or, Bool.not_eq_true] at go
    refine ⟨rfl, ?_, ?_, breaks⟩
    · exact List.forall_mem_cons.mpr ⟨go.1, plain⟩
    · rw [← List.cons_append] at free
      simp [operatorFree, startsWithOperator_of_append free, free']

theorem singleQuoted_ok (found : singleQuoted text = some (content, rest)) :
    text = content ++ '\'' :: rest := by
  fun_induction singleQuoted text generalizing content with
  | case1 => simp at found
  | case2 text =>
    simp only [Option.some.injEq, Prod.mk.injEq] at found
    obtain ⟨rfl, rfl⟩ := found
    rfl
  | case3 c text other ih =>
    obtain ⟨⟨front, after⟩, inner, done⟩ := Option.map_eq_some_iff.mp found
    simp only [Prod.mk.injEq] at done
    obtain ⟨rfl, rfl⟩ := done
    simp [ih inner]

/-- The content of a double-quoted string has less ink than its source text. -/
theorem doubleQuoted_ok {body : List Char} (found : doubleQuoted body = .ok (content, text, rest)) :
    body = text ++ rest ∧ ink content < ink text := by
  fun_induction doubleQuoted body generalizing content text with
  | case1 => simp at found
  | case2 body =>
    simp only [Except.ok.injEq, Prod.mk.injEq] at found
    obtain ⟨rfl, rfl, rfl⟩ := found
    simp [ink_cons]
  | case3 => simp at found
  | case4 c body ih =>
    obtain ⟨⟨front, source, after⟩, inner, done⟩ := Parser.bind_eq_ok.mp found
    simp only [Except.ok.injEq, Prod.mk.injEq] at done
    obtain ⟨rfl, rfl, rfl⟩ := done
    obtain ⟨rfl, less⟩ := ih inner
    refine ⟨rfl, ?_⟩
    rw [ink_append, ink_cons, ink_cons]
    split_ifs <;> simp_all [ink_cons] <;> omega
  | case5 c body _ _ _ ih =>
    obtain ⟨⟨front, source, after⟩, inner, done⟩ := Parser.bind_eq_ok.mp found
    simp only [Except.ok.injEq, Prod.mk.injEq] at done
    obtain ⟨rfl, rfl, rfl⟩ := done
    obtain ⟨rfl, less⟩ := ih inner
    refine ⟨rfl, ?_⟩
    rw [ink_cons, ink_cons]
    omega

end Words

open Tokenizer

section Shapes

variable {t t' : Tokenizer} {spanned : Spanned} {token : Token} {text rest : List Char}
variable {last : Option TokenClass} {flag : Bool}

/-- What the tokenizer emits next: a token, the text it covers, the text behind it, and the two
context flags. -/
inductive Lexeme (t : Tokenizer) :
    Token → List Char → List Char → Option TokenClass → Bool → Prop
  | lineFeed {rest : List Char} : t.rest = '\n' :: rest →
      Lexeme t .newline ['\n'] rest none t.inModeParams
  | returnFeed {rest : List Char} : t.rest = '\r' :: '\n' :: rest →
      Lexeme t .newline ['\r', '\n'] rest none t.inModeParams
  | blanks {c : Char} {rest : List Char} : t.rest = c :: rest → isBlank c = true →
      Lexeme t (.whitespace (String.ofList (t.rest.takeWhile isBlank))) (t.rest.takeWhile isBlank)
        (t.rest.dropWhile isBlank) t.lastSignificant t.inModeParams
  | colon {rest : List Char} : t.rest = ':' :: rest → t.pos = 0 ∨ t.lastSignificant = none →
      rest.takeWhile isIdentChar = [] → Lexeme t .colon [':'] rest (some .other) t.inModeParams
  | command {rest : List Char} : t.rest = ':' :: rest → t.pos = 0 ∨ t.lastSignificant = none →
      rest.takeWhile isIdentChar ≠ [] →
      Lexeme t (.command (String.ofList (rest.takeWhile isIdentChar)))
        (':' :: rest.takeWhile isIdentChar) (rest.dropWhile isIdentChar) (some .command) t.inModeParams
  | modeParenOpen {rest : List Char} : t.rest = '(' :: rest →
      Lexeme t .modeParenOpen ['('] rest (some .other) true
  | groupOpen {rest : List Char} : t.rest = '(' :: rest →
      Lexeme t .groupOpen ['('] rest (some .other) t.inModeParams
  | modeParenClose {rest : List Char} : t.rest = ')' :: rest →
      Lexeme t .modeParenClose [')'] rest (some .other) false
  | groupClose {rest : List Char} : t.rest = ')' :: rest →
      Lexeme t .groupClose [')'] rest (some .other) t.inModeParams
  | operator {token : Token} {rest : List Char} : token.operatorText ≠ "" →
      t.rest = token.operatorText.toList ++ rest →
      Lexeme t token token.operatorText.toList rest (some .other) t.inModeParams
  | idRef {kind : IdKind} {number : ℕ} {digits : List Char} :
      idRefAt t.rest = some (kind, number, digits) →
      Lexeme t (.idRef kind number) (t.rest.take (digits.length + 1))
        (t.rest.drop (digits.length + 1)) (some .other) t.inModeParams
  | double {body content text rest : List Char} : t.rest = '"' :: body →
      doubleQuoted body = .ok (content, text, rest) →
      Lexeme t (.word (String.ofList content)) ('"' :: text) rest (some .other) t.inModeParams
  | single {body content rest : List Char} : t.rest = '\'' :: body →
      singleQuoted body = some (content, rest) →
      Lexeme t (.word (String.ofList content)) ('\'' :: content ++ ['\'']) rest (some .other)
        t.inModeParams
  | paramEq {rest : List Char} : t.inModeParams = true → t.rest = '=' :: rest →
      Lexeme t .paramEq ['='] rest (some .other) t.inModeParams
  | comma {rest : List Char} : t.inModeParams = true → t.rest = ',' :: rest →
      Lexeme t .comma [','] rest (some .other) t.inModeParams
  | value {value : Bool} {word rest : List Char} : t.inModeParams = true →
      gobbleWord t.inModeParams t.before t.pos t.rest = .ok (word, rest) → word ≠ [] →
      t.rest.head? ≠ some '\'' → Lexeme t (.paramValue value) word rest (some .other) t.inModeParams
  | word {word rest : List Char} :
      gobbleWord t.inModeParams t.before t.pos t.rest = .ok (word, rest) → word ≠ [] →
      t.rest.head? ≠ some '\'' → idRefAt t.rest = none →
      Lexeme t (.word (String.ofList word)) word rest (some .other) t.inModeParams

/-- The covered text stands at the head of the rest. -/
theorem Lexeme.split (lexeme : Lexeme t token text rest last flag) : t.rest = text ++ rest := by
  cases lexeme with
  | blanks => exact List.takeWhile_append_dropWhile.symm
  | idRef => exact (List.take_append_drop _ _).symm
  | command shape => rw [shape, List.cons_append, List.takeWhile_append_dropWhile]
  | double shape quoted => rw [shape, (doubleQuoted_ok quoted).1, List.cons_append]
  | single shape quoted => simp [shape, singleQuoted_ok quoted]
  | value _ gobbled => exact (gobbleWord_ok gobbled).1
  | word gobbled => exact (gobbleWord_ok gobbled).1
  | operator _ shape => exact shape
  | paramEq _ shape => exact shape
  | comma _ shape => exact shape
  | _ shape => exact shape

theorem Lexeme.nonempty (lexeme : Lexeme t token text rest last flag) : text ≠ [] := by
  cases lexeme with
  | blanks shape blank => simp [shape, blank]
  | @idRef kind number digits atHead =>
    obtain ⟨covered, -⟩ := idRefAt_eq_some atHead
    rw [covered]
    cases kind <;> simp [IdKind.display]
  | operator visible _ => simpa using visible
  | single => simp
  | value _ _ nonempty => exact nonempty
  | word _ nonempty => exact nonempty
  | _ => exact List.cons_ne_nil _ _

theorem Lexeme.ne_eof (lexeme : Lexeme t token text rest last flag) : token ≠ .eof := by
  cases lexeme with
  | operator visible _ =>
    rintro rfl
    exact visible rfl
  | _ => simp

/-- The tokenizer emits a lexeme, or has reached the end of the input. -/
def Emits (t : Tokenizer) (spanned : Spanned) (t' : Tokenizer) : Prop :=
  ∃ token text rest last flag, Lexeme t token text rest last flag ∧
    t.emit token text rest last flag = (spanned, t')

theorem Lexeme.emits (lexeme : Lexeme t token text rest last flag)
    (found : (Except.ok (t.emit token text rest last flag) : Except TokenizeError _) =
      .ok (spanned, t')) : Emits t spanned t' :=
  ⟨token, text, rest, last, flag, lexeme, Except.ok.inj found⟩

theorem spacedOperator_emits (found : t.spacedOperator token = .ok (spanned, t'))
    (visible : token.operatorText ≠ "") (starts : token.operatorText.toList <+: t.rest) :
    Emits t spanned t' := by
  simp only [spacedOperator] at found
  split_ifs at found
  have front : t.rest.take token.operatorText.length = token.operatorText.toList := by
    rw [← String.length_toList]
    exact (List.prefix_iff_eq_take.mp starts).symm
  rw [front] at found
  refine (Lexeme.operator visible ?_).emits found
  rw [← front, List.take_append_drop]

theorem tokenizePipeOrParallel_emits (found : t.tokenizePipeOrParallel = .ok (spanned, t')) :
    Emits t spanned t' := by
  rw [tokenizePipeOrParallel] at found
  split at found
  · next rest shape => exact (@Lexeme.operator t .pipeStdout rest (by decide) shape).emits found
  · next rest shape => exact (@Lexeme.operator t .pipeAll rest (by decide) shape).emits found
  · next rest shape => exact (@Lexeme.operator t .pipeStderr rest (by decide) shape).emits found
  · next rest shape => exact spacedOperator_emits found (by decide) ⟨rest, shape.symm⟩
  · next rest shape => exact spacedOperator_emits found (by decide) ⟨rest, shape.symm⟩
  · next rest shape => exact (@Lexeme.operator t .jobOr _ (by decide) shape).emits found
  · simp at found

theorem tokenizeRegularWord_emits (noId : idRefAt t.rest = none) (noQuote : t.rest.head? ≠ some '\'')
    (found : t.tokenizeRegularWord = .ok (spanned, t')) : Emits t spanned t' := by
  rw [tokenizeRegularWord] at found
  obtain ⟨⟨word, rest⟩, gobbled, found⟩ := Parser.bind_eq_ok.mp found
  dsimp only at found
  split at found
  · simp at found
  · next nonempty =>
    split at found
    · next value read =>
      have inside : t.inModeParams = true := by
        by_contra outside
        simp [outside] at read
      exact (Lexeme.value inside gobbled nonempty noQuote).emits found
    · exact (Lexeme.word gobbled nonempty noQuote noId).emits found

theorem tokenizeWord_emits (found : t.tokenizeWord = .ok (spanned, t')) : Emits t spanned t' := by
  rw [tokenizeWord] at found
  split at found
  · next kind number digits atHead => exact (Lexeme.idRef atHead).emits found
  · next noId =>
    split at found
    · next body shape =>
      rw [tokenizeQuotedString] at found
      split at found
      · next content source rest quoted => exact (Lexeme.double shape quoted).emits found
      · simp at found
      · simp at found
    · next body shape =>
      rw [tokenizeSingleQuotedString] at found
      split at found
      · next content rest quoted => exact (Lexeme.single shape quoted).emits found
      · simp at found
    · next c rest _ noSingle shape =>
      split_ifs at found with equals separates
      · obtain ⟨inside, rfl⟩ := equals
        exact (Lexeme.paramEq inside shape).emits found
      · obtain ⟨inside, rfl⟩ := separates
        exact (Lexeme.comma inside shape).emits found
      · refine tokenizeRegularWord_emits noId ?_ found
        intro quote
        rw [shape, List.head?_cons, Option.some.injEq] at quote
        exact noSingle quote
    · next shape => exact tokenizeRegularWord_emits noId (by simp [shape]) found

/-- One step of the tokenizer: the end of the input, or a lexeme. -/
theorem nextToken_emits (found : t.nextToken = .ok (spanned, t')) :
    (t.rest = [] ∧ spanned = ⟨.eof, ⟨t.pos, t.pos⟩⟩ ∧ t' = t) ∨ Emits t spanned t' := by
  rw [nextToken] at found
  split at found
  · next shape =>
    simp only [Except.ok.injEq, Prod.mk.injEq] at found
    exact .inl ⟨shape, found.1.symm, found.2.symm⟩
  · next rest shape => exact .inr ((Lexeme.lineFeed shape).emits found)
  · next rest shape => exact .inr ((Lexeme.returnFeed shape).emits found)
  · next c rest _ _ shape =>
    refine .inr ?_
    split_ifs at found with blank colon opens command closes params then' always' and' bar
    · exact (Lexeme.blanks shape blank).emits found
    · obtain ⟨rfl, start⟩ := colon
      simp only [tokenizeColon] at found
      split_ifs at found with empty
      · exact (Lexeme.colon shape start empty).emits found
      · exact (Lexeme.command shape start empty).emits found
    · subst opens
      exact (Lexeme.modeParenOpen shape).emits found
    · subst opens
      exact (Lexeme.groupOpen shape).emits found
    · subst closes
      exact (Lexeme.modeParenClose shape).emits found
    · subst closes
      exact (Lexeme.groupClose shape).emits found
    · obtain ⟨more, rfl⟩ := List.head?_eq_some_iff.mp then'.2
      exact spacedOperator_emits found (by decide) ⟨more, by rw [shape, then'.1]; rfl⟩
    · obtain ⟨more, rfl⟩ := List.head?_eq_some_iff.mp always'.2
      exact spacedOperator_emits found (by decide) ⟨more, by rw [shape, always'.1]; rfl⟩
    · obtain ⟨more, rfl⟩ := List.head?_eq_some_iff.mp and'.2
      obtain ⟨rfl, -⟩ := and'
      have operator := @Lexeme.operator t .jobAnd more (by decide) shape
      refine operator.emits (found ▸ ?_)
      rw [shape]
      rfl
    · exact tokenizePipeOrParallel_emits found
    · exact tokenizeWord_emits found

theorem nextToken_nil (none : t.rest = []) :
    t.nextToken = .ok (⟨.eof, ⟨t.pos, t.pos⟩⟩, t) := by
  rw [nextToken, none]

/-- Before the end of the input every step consumes text. -/
theorem nextToken_moves (found : t.nextToken = .ok (spanned, t')) (more : t.rest ≠ []) :
    spanned.token ≠ .eof ∧ t'.rest.length < t.rest.length := by
  rcases nextToken_emits found with ⟨none, -⟩ | ⟨token, text, rest, last, flag, lexeme, emitted⟩
  · exact absurd none more
  · simp only [emit, Prod.mk.injEq] at emitted
    obtain ⟨rfl, rfl⟩ := emitted
    have size := List.length_pos_of_ne_nil lexeme.nonempty
    refine ⟨lexeme.ne_eof, ?_⟩
    rw [lexeme.split, List.length_append]
    exact Nat.lt_add_of_pos_left size

end Shapes

section Tokens

variable {t t' : Tokenizer} {spanned : Spanned} {token : Token} {text rest : List Char}

/-- The token has at most the ink of the text, and a word with all of it is plain. -/
def Bears (text : List Char) (token : Token) : Prop :=
  ∀ piece, Piece.ofToken token = some piece → ink piece.text.toList ≤ ink text ∧
    (ink text ≤ ink piece.text.toList → piece.Plain)

theorem bears_none (silent : Piece.ofToken token = none) : Bears text token := by
  intro piece spelled
  simp [silent] at spelled

theorem bears_word (plain : plainWord text = true) : Bears text (.word (String.ofList text)) := by
  intro piece spelled
  obtain rfl : Piece.word (String.ofList text) = piece := by simpa [Piece.ofToken] using spelled
  simp [Piece.text, Piece.Plain, plain]

theorem bears_quoted {content : List Char} (less : ink content < ink text) :
    Bears text (.word (String.ofList content)) := by
  intro piece spelled
  obtain rfl : Piece.word (String.ofList content) = piece := by simpa [Piece.ofToken] using spelled
  simp only [Piece.text, String.toList_ofList]
  exact ⟨less.le, fun le => absurd le (by omega)⟩

theorem bears_operator {piece : Piece} (spelled : Piece.ofToken token = some piece)
    (operator : 0 < piece.level) (shown : piece.text.toList = text) : Bears text token := by
  intro other same
  obtain rfl : piece = other := by simpa [spelled] using same
  refine ⟨by rw [shown], fun _ => ?_⟩
  cases piece with
  | word _ => simp [Piece.level] at operator
  | _ => trivial

theorem not_delimiter_of_ident {c : Char} (ident : isIdentChar c = true) : isDelimiter c = false := by
  by_contra delimiter
  simp [isIdentChar_of_isDelimiter (by simpa using delimiter)] at ident

theorem operatorFree_of_ident {word : List Char} (ident : ∀ c ∈ word, isIdentChar c = true) :
    operatorFree word = true := by
  induction word with
  | nil => rfl
  | cons c word ih =>
    have first := ident c (by simp)
    have none : startsWithOperator (c :: word) = none := by
      rw [Option.eq_none_iff_forall_ne_some]
      intro found starts
      simp [startsWithOperator_head starts] at first
    simp [operatorFree, none, ih fun d member => ident d (by simp [member])]

theorem plainWord_idText (kind : IdKind) {number : ℕ} (small : number < 2 ^ 32) :
    plainWord (kind.idText number).toList = true := by
  refine plainWord_iff.mpr ⟨?_, fun c member => not_delimiter_of_ident (idText_ident c member), ?_,
    operatorFree_of_ident idText_ident, ?_⟩
  · rw [idText_toList]
    simp [Nat.toDigits_ne_nil]
  · rw [idText_toList]
    cases kind <;> simp [IdKind.display]
  · simp [idStable, idRefAt_idText small]

theorem plainWord_command {name : List Char} (ident : ∀ c ∈ name, isIdentChar c = true) :
    plainWord (':' :: name) = true := by
  refine plainWord_iff.mpr ⟨by simp, ?_, by simp, ?_, by simp [idStable, idRefAt, tryIdKind]⟩
  · exact List.forall_mem_cons.mpr ⟨rfl, fun c member => not_delimiter_of_ident (ident c member)⟩
  · simp [operatorFree, operatorFree_of_ident ident, startsWithOperator]

theorem bears_idRef {kind : IdKind} {number : ℕ} {digits : List Char}
    (found : idRefAt text = some (kind, number, digits)) :
    Bears (text.take (digits.length + 1)) (.idRef kind number) := by
  obtain ⟨covered, rfl, small, nonempty, isDigit⟩ := idRefAt_eq_some found
  have full : ∀ c ∈ (kind.idText (Text.numeral digits)).toList, c ≠ ' ' := by
    rintro c member rfl
    simpa [isIdentChar] using idText_ident _ member
  have fullDigits : ∀ c ∈ digits, c ≠ ' ' := by
    rintro c member rfl
    simpa using isDigit _ member
  have shorter : (Nat.toDigits 10 (Text.numeral digits)).length ≤ digits.length :=
    (Nat.length_toDigits_le_iff (by omega) (List.length_pos_of_ne_nil nonempty)).mpr
      (numeral_lt isDigit)
  intro piece spelled
  obtain rfl : Piece.word (kind.idText (Text.numeral digits)) = piece := by
    simpa [Piece.ofToken] using spelled
  refine ⟨?_, fun _ => plainWord_idText kind small⟩
  have letter : ink kind.display.toList = kind.display.toList.length := by
    cases kind <;> rfl
  rw [Piece.text, ink_of_all full, covered, ink_append, ink_of_all fullDigits, letter, idText_toList,
    List.length_append]
  omega

theorem bears_command {name : List Char} (ident : ∀ c ∈ name, isIdentChar c = true) :
    Bears (':' :: name) (.command (String.ofList name)) := by
  intro piece spelled
  obtain rfl : Piece.word (":" ++ String.ofList name) = piece := by
    simpa [Piece.ofToken] using spelled
  have shown : (":" ++ String.ofList name).toList = ':' :: name := by simp
  refine ⟨by rw [Piece.text, shown], fun _ => ?_⟩
  rw [Piece.Plain, shown]
  exact plainWord_command ident

/-- No token has more ink than the text it covers. -/
theorem Lexeme.bears {last : Option TokenClass} {flag : Bool}
    (lexeme : Lexeme t token text rest last flag) : Bears text token := by
  cases lexeme with
  | command shape _ _ => exact bears_command fun c member => List.mem_takeWhile_imp member
  | operator visible shape =>
    cases token with
    | serialThen | serialAlways | parallelAll | parallelRace | jobAnd | jobOr | pipeStdout | pipeAll
    | pipeStderr => exact bears_operator rfl (by decide) rfl
    | _ => exact absurd rfl visible
  | idRef atHead => exact bears_idRef atHead
  | double shape quoted =>
    exact bears_quoted ((doubleQuoted_ok quoted).2.trans_le (ink_cons_le _ _))
  | single shape quoted =>
    refine bears_quoted ?_
    rw [List.cons_append, ink_cons, ink_append, ink_cons]
    simp only [ink_nil, Char.reduceEq, if_false]
    omega
  | word gobbled nonempty noQuote noId =>
    obtain ⟨split, delimiters, free, breaks⟩ := gobbleWord_ok gobbled
    rw [split, idRefAt_append breaks nonempty] at noId
    rw [split, List.head?_append_of_ne_nil _ nonempty] at noQuote
    exact bears_word (plainWord_iff.mpr ⟨nonempty, delimiters, noQuote, free, by simp [idStable, noId]⟩)
  | _ => exact bears_none rfl

/-- A tokenizer step covers a front part of the text with a token that bears no more ink. -/
theorem nextToken_covers (found : t.nextToken = .ok (spanned, t')) :
    ∃ text, t.rest = text ++ t'.rest ∧ Bears text spanned.token := by
  rcases nextToken_emits found with ⟨-, rfl, rfl⟩ | ⟨token, text, rest, last, flag, lexeme, emitted⟩
  · exact ⟨[], rfl, bears_none rfl⟩
  · simp only [emit, Prod.mk.injEq] at emitted
    obtain ⟨rfl, rfl⟩ := emitted
    exact ⟨text, lexeme.split, lexeme.bears⟩

/-- The pieces among some tokens. -/
def piecesOf (tokens : List Spanned) : List Piece :=
  tokens.filterMap fun spanned => Piece.ofToken spanned.token

def inkOf (pieces : List Piece) : ℕ := (pieces.map fun piece => ink piece.text.toList).sum

/-- The tokens of a text have at most its ink; if they have all of it, every word is plain. -/
theorem tokenizeLoop_ink {fuel : ℕ} {tokens : List Spanned} (found : tokenizeLoop fuel t = .ok tokens) :
    inkOf (piecesOf tokens) ≤ ink t.rest ∧
      (ink t.rest ≤ inkOf (piecesOf tokens) → ∀ piece ∈ piecesOf tokens, piece.Plain) := by
  induction fuel generalizing t tokens with
  | zero =>
    simp only [tokenizeLoop, Except.ok.injEq] at found
    subst found
    simp [piecesOf, inkOf]
  | succ fuel ih =>
    rw [tokenizeLoop] at found
    obtain ⟨⟨spanned, t'⟩, next, found⟩ := Parser.bind_eq_ok.mp found
    dsimp only at found
    obtain ⟨text, split, bears⟩ := nextToken_covers next
    split_ifs at found with final
    · simp only [Except.ok.injEq] at found
      subst found
      simp [piecesOf, inkOf, final, Piece.ofToken]
    · obtain ⟨more, loop, done⟩ := Parser.bind_eq_ok.mp found
      simp only [Except.ok.injEq] at done
      subst done
      obtain ⟨below, plain⟩ := ih loop
      rw [split, ink_append]
      cases spelled : Piece.ofToken spanned.token with
      | none =>
        have same : piecesOf (spanned :: more) = piecesOf more := by simp [piecesOf, spelled]
        rw [same]
        exact ⟨by omega, fun enough => plain (by omega)⟩
      | some piece =>
        obtain ⟨le, full⟩ := bears piece spelled
        have cons : piecesOf (spanned :: more) = piece :: piecesOf more := by simp [piecesOf, spelled]
        have sum : inkOf (piece :: piecesOf more) = ink piece.text.toList + inkOf (piecesOf more) := by
          simp [inkOf]
        rw [cons, sum]
        refine ⟨by omega, fun enough => List.forall_mem_cons.mpr ⟨full (by omega), plain (by omega)⟩⟩

end Tokens

end CueShell
