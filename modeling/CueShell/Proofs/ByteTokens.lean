import CueShell.Model.Parser.ByteTokenizer
import CueShell.Proofs.LineEndTokens
import CueShell.Proofs.TokenSpans
import Mathlib.Data.List.Find

/-! # The byte tokenizer does not panic

At every place between two characters the byte tokenizer does what the tokenizer over characters does:
it ends with the same token or the same error, at the same position. Every position it slices the input
at is such a place.
-/

namespace CueShell

open Attempt

/-- The state of the byte tokenizer at the place of a tokenizer over characters. -/
def Tokenizer.inBytes (input : List Char) (t : Tokenizer) : ByteTokenizer :=
  ⟨input, t.pos, t.lastSignificant, t.inModeParams⟩

/-- The tokenizer stands behind the text `front` of the input. -/
structure Tokenizer.Behind (t : Tokenizer) (input front : List Char) : Prop where
  split : input = front ++ t.rest
  pos : t.pos = Text.byteLength front
  before : t.before = front.getLast?

/-- A token of the byte tokenizer and its state after it, against those over characters. -/
def SameStep (input : List Char) (start : ℕ) (own : Token × ByteTokenizer) (value : Spanned × Tokenizer) :
    Prop :=
  value.1 = ⟨own.1, ⟨start, own.2.pos⟩⟩ ∧ own.2 = value.2.inBytes input

section Slices

theorem strSlice_of_boundaries {ε : Type} {start stop : ℕ} (ordered : start ≤ stop)
    (first : Text.IsBoundary input start) (last : Text.IsBoundary input stop) :
    (strSlice input start stop : Attempt ε (List Char)) = pure (Text.slice input start stop) := by
  rw [strSlice, if_pos ⟨ordered, first.isCharBoundary, last.isCharBoundary⟩]

theorem strSlice_append {ε : Type} (lead mid trail : List Char) :
    (strSlice (lead ++ (mid ++ trail)) (Text.byteLength lead) (Text.byteLength lead + Text.byteLength mid) :
      Attempt ε (List Char)) = pure mid := by
  rw [strSlice_of_boundaries (Nat.le_add_right ..) Text.isBoundary_append, Text.slice_append]
  rw [← List.append_assoc, ← Text.byteLength_append]
  exact Text.isBoundary_append

end Slices

section Operators

variable {text : List Char}

/-- The operators, longest first, with the blanks they need. -/
def operatorTable : List (Token × OperatorBoundary) :=
  [(.pipeAll, .any), (.pipeStderr, .any), (.parallelAll, .whitespaceRequired),
    (.parallelRace, .whitespaceRequired), (.serialThen, .whitespaceRequired),
    (.serialAlways, .whitespaceRequired), (.pipeStdout, .any), (.jobAnd, .any), (.jobOr, .any)]

theorem operatorTable_texts : ∀ entry ∈ operatorTable, entry.1.operatorText.toList ∈ operatorTexts := by
  simp [operatorTable, operatorTexts, Token.operatorText]

theorem operatorTexts_ascii : ∀ operator ∈ operatorTexts, ∀ c ∈ operator, c.toNat < 128 := by
  simp [operatorTexts]

theorem isPrefixOf_eq_false {word text : List Char} (other : ∀ rest, text = word ++ rest → False) :
    word.isPrefixOf text = false := by
  rw [← Bool.not_eq_true, List.isPrefixOf_iff_prefix]
  rintro ⟨rest, rfl⟩
  exact other rest rfl

theorem startsWithOperator_eq_find (text : List Char) :
    startsWithOperator text = operatorTable.find? fun entry => entry.1.operatorText.toList.isPrefixOf text := by
  cases found : startsWithOperator text with
  | none =>
    rw [startsWithOperator_eq_none] at found
    symm
    rw [List.find?_eq_none]
    intro entry member starts
    exact found _ (operatorTable_texts entry member) (List.isPrefixOf_iff_prefix.mp starts)
  | some entry =>
    revert found
    fun_cases startsWithOperator text with
    | case9 tail other =>
      have bar : ['|'].isPrefixOf tail = false := isPrefixOf_eq_false other
      rintro ⟨⟩
      simp [operatorTable, Token.operatorText, List.find?, List.isPrefixOf, bar]
    | case10 => simp
    | _ =>
      rintro ⟨⟩
      simp [operatorTable, Token.operatorText, List.find?, List.isPrefixOf]

/-- Operators are found in the bytes as in the text. -/
theorem startsWithOperator_utf8 (text : List Char) :
    startsWithOperator (Text.utf8 text) = startsWithOperator text := by
  rw [startsWithOperator_eq_find, startsWithOperator_eq_find]
  apply List.find?_congr
  intro entry member
  exact Text.isPrefixOf_utf8 (operatorTexts_ascii _ (operatorTable_texts entry member)) text

/-- An operator at the head of the text is spelt there. -/
theorem startsWithOperator_spelt {token : Token} {boundary : OperatorBoundary}
    (starts : startsWithOperator text = some (token, boundary)) :
    token.operatorText.toList <+: text ∧ token.operatorText.toList ∈ operatorTexts := by
  rw [startsWithOperator_eq_find] at starts
  have spelt := List.find?_some starts
  exact ⟨List.isPrefixOf_iff_prefix.mp spelt, operatorTable_texts _ (List.mem_of_find?_eq_some starts)⟩

theorem operatorLen_eq {token : Token} {boundary : OperatorBoundary}
    (starts : startsWithOperator text = some (token, boundary)) :
    operatorLen text = token.operatorText.toList.length := by
  have texts : ["|&>", "|!>", "|||", "|?|", "->", "~>", "|>", "&&", "||"] =
      operatorTable.map fun entry => entry.1.operatorText := rfl
  rw [startsWithOperator_eq_find] at starts
  rw [operatorLen, texts, List.find?_map]
  simp only [Function.comp_def, starts, Option.map_some, Option.getD_some]
  exact (String.length_toList ..).symm

end Operators

namespace ByteTokenizer

variable {b : ByteTokenizer} {front back lead mid trail operator rest : List Char} {p : Char → Bool}

section Places

theorem getElem_bytes (split : b.input = front ++ back) (offset : ℕ) :
    b.bytes[Text.byteLength front + offset]? = (Text.utf8 back)[offset]? := by
  rw [bytes, split, ← List.getElem?_drop, Text.drop_utf8]

theorem drop_bytes (split : b.input = front ++ back) :
    b.bytes.drop (Text.byteLength front) = Text.utf8 back := by
  rw [bytes, split, Text.drop_utf8]

theorem slice_split (split : b.input = lead ++ (mid ++ trail)) :
    b.slice (Text.byteLength lead) (Text.byteLength lead + Text.byteLength mid) = pure mid := by
  rw [slice, split, strSlice_append]

theorem skipWhile_split (ascii : Text.AsciiOnly p) (split : b.input = front ++ back) :
    b.skipWhile p (Text.byteLength front) = Text.byteLength front + (back.takeWhile p).length := by
  rw [skipWhile, drop_bytes split, ascii.takeWhile_utf8]

theorem isOperatorBoundary_ascii : Text.AsciiOnly isOperatorBoundary := by
  intro c blank
  simp only [isOperatorBoundary, Bool.or_eq_true, beq_iff_eq] at blank
  rcases blank with ((rfl | rfl) | rfl) | rfl <;> decide

theorem isOperatorBoundaryBefore_split (split : b.input = front ++ back) :
    b.isOperatorBoundaryBefore (Text.byteLength front) = pure (front.getLast?.all isOperatorBoundary) := by
  rw [isOperatorBoundaryBefore]
  rcases List.eq_nil_or_concat' front with rfl | ⟨init, c, rfl⟩
  · rfl
  · have size := c.utf8Size_pos
    rw [if_neg (by simp [Text.byteLength_append]; omega)]
    have same := isOperatorBoundary_ascii.getLast_utf8 (init ++ [c])
    have here : b.bytes[Text.byteLength (init ++ [c]) - 1]? = (Text.utf8 (init ++ [c])).getLast? := by
      have inside : Text.byteLength (init ++ [c]) - 1 < (Text.utf8 (init ++ [c])).length := by
        rw [Text.length_utf8, Text.byteLength_append, Text.byteLength_cons, Text.byteLength_nil]
        omega
      rw [bytes, split, Text.utf8_append, List.getElem?_append_left inside, ← Text.length_utf8,
        List.getLast?_eq_getElem?]
    rw [List.getLast?_append, List.getLast?_singleton] at same ⊢
    obtain ⟨byte, last, within⟩ := Option.map_eq_some_iff.mp same
    rw [byteAt, here, last, ofOption, pure_bind, within]
    rfl

theorem isOperatorBoundaryAfter_split (split : b.input = front ++ back) :
    b.isOperatorBoundaryAfter (Text.byteLength front) = pure (back.head?.all isOperatorBoundary) := by
  rw [isOperatorBoundaryAfter]
  have here := getElem_bytes split 0
  rw [Nat.add_zero] at here
  cases back with
  | nil =>
    rw [if_pos (by simp [bytes, split])]
    rfl
  | cons c back =>
    have size := c.utf8Size_pos
    rw [if_neg (by simp [bytes, split]; omega), byteAt, here, ← List.head?_eq_getElem?]
    obtain ⟨byte, first, within⟩ := Option.map_eq_some_iff.mp (isOperatorBoundary_ascii.head_utf8 (c :: back))
    rw [first, ofOption, pure_bind, within]
    rfl

/-- The blanks around an operator are found in the bytes as in the text. -/
theorem operatorHasRequiredWhitespace_split (ascii : ∀ c ∈ operator, c.toNat < 128)
    (split : b.input = front ++ (operator ++ rest)) :
    b.operatorHasRequiredWhitespace (Text.byteLength front) operator.length =
      pure (CueShell.operatorHasRequiredWhitespace front.getLast? (operator ++ rest) operator.length) := by
  have after : b.input = (front ++ operator) ++ rest := split.trans (List.append_assoc ..).symm
  rw [operatorHasRequiredWhitespace, isOperatorBoundaryBefore_split split, pure_bind,
    CueShell.operatorHasRequiredWhitespace, List.drop_left, ← Text.byteLength_of_forall ascii,
    ← Text.byteLength_append, isOperatorBoundaryAfter_split after]
  cases front.getLast?.all isOperatorBoundary <;> rfl

theorem missingOperatorWhitespaceError_split {α : Type} {text : String} (ascii : ∀ c ∈ text.toList, c.toNat < 128)
    (split : b.input = front ++ (text.toList ++ rest)) :
    (b.missingOperatorWhitespaceError (Text.byteLength front) text text.toList.length : Attempt TokenizeError α) =
      throw (CueShell.missingOperatorWhitespaceError (Text.byteLength front) text (text.toList ++ rest)) := by
  have stop : min (Text.byteLength front + text.toList.length) b.bytes.length =
      Text.byteLength front + Text.byteLength text.toList := by
    rw [Text.byteLength_of_forall ascii, bytes, Text.length_utf8, split, Text.byteLength_append,
      Text.byteLength_append, Text.byteLength_of_forall ascii]
    omega
  rw [missingOperatorWhitespaceError, stop, slice_split split, pure_bind,
    CueShell.missingOperatorWhitespaceError, ← String.length_toList, List.take_left]

end Places

end ByteTokenizer

section Tokens

open Tokenizer

variable {input front rest text : List Char} {t : Tokenizer} {token : Token}

/-- A token that covers `text`, and the context behind it. -/
theorem sameStep_emit (last : Option TokenClass) (flag : Bool) (length : ℕ) (size : Text.byteLength text = length) :
    Matches (SameStep input t.pos)
      (pure (token, (⟨input, t.pos + length, last, flag⟩ : ByteTokenizer)) : Attempt TokenizeError _)
      (.ok (t.emit token text rest last flag)) := by
  refine .ok ⟨?_, ?_⟩ <;> simp [emit, inBytes, size]

theorem sameStep_other (length : ℕ) (size : Text.byteLength text = length) :
    Matches (SameStep input t.pos)
      (pure ((t.inBytes input).other token (t.pos + length)) : Attempt TokenizeError _)
      (.ok (t.emitOther token text rest)) :=
  sameStep_emit (some .other) t.inModeParams length size

theorem operatorText_ascii (operator : token.operatorText.toList ∈ operatorTexts) :
    Text.byteLength token.operatorText.toList = token.operatorText.toList.length :=
  Text.byteLength_of_forall (operatorTexts_ascii _ operator)

theorem Tokenizer.Behind.spacedOperator (behind : t.Behind input front)
    (operator : token.operatorText.toList ∈ operatorTexts) (shape : t.rest = token.operatorText.toList ++ rest) :
    Matches (SameStep input t.pos)
      ((t.inBytes input).spacedOperator token token.operatorText token.operatorText.toList.length)
      (t.spacedOperator token) := by
  have ascii := operatorTexts_ascii _ operator
  have split : (t.inBytes input).input = front ++ (token.operatorText.toList ++ rest) :=
    behind.split.trans (by rw [shape])
  have here : (t.inBytes input).pos = Text.byteLength front := behind.pos
  rw [ByteTokenizer.spacedOperator, here, ByteTokenizer.operatorHasRequiredWhitespace_split ascii split,
    pure_bind, Tokenizer.spacedOperator, shape, behind.before, ← String.length_toList]
  split_ifs with fits
  · rw [List.take_left, ← behind.pos]
    exact sameStep_other _ (operatorText_ascii operator)
  · rw [ByteTokenizer.missingOperatorWhitespaceError_split ascii split, behind.pos]
    exact .error _

/-- The tokens that start with `|`, by the text behind it. -/
theorem tokenizePipeOrParallel_if (shape : t.rest = '|' :: text) :
    t.tokenizePipeOrParallel =
      if ['>'].isPrefixOf text then .ok (t.emitOther .pipeStdout ['|', '>'] (text.drop 1))
      else if ['&', '>'].isPrefixOf text then .ok (t.emitOther .pipeAll ['|', '&', '>'] (text.drop 2))
      else if ['!', '>'].isPrefixOf text then .ok (t.emitOther .pipeStderr ['|', '!', '>'] (text.drop 2))
      else if ['|', '|'].isPrefixOf text then t.spacedOperator .parallelAll
      else if ['?', '|'].isPrefixOf text then t.spacedOperator .parallelRace
      else if ['|'].isPrefixOf text then .ok (t.emitOther .jobOr ['|', '|'] (text.drop 1))
      else .error ⟨t.pos, "bare `|` is not a cue-shell pipe operator; use `|>` for stdout pipes, " ++
        "`|&>` for stdout+stderr, or quote `|` to pass it as an argument"⟩ := by
  rw [tokenizePipeOrParallel, shape]
  generalize ("bare `|` is not a cue-shell pipe operator; use `|>` for stdout pipes, " ++
    "`|&>` for stdout+stderr, or quote `|` to pass it as an argument") = message
  split
  case h_6 rest other is =>
    obtain ⟨-, rfl⟩ := List.cons.inj is
    have single : ['|'].isPrefixOf rest = false := isPrefixOf_eq_false other
    simp [List.isPrefixOf, single]
  case h_7 stdout all stderr parallel race bars =>
    rw [isPrefixOf_eq_false fun rest is => stdout rest (congrArg _ is),
      isPrefixOf_eq_false fun rest is => all rest (congrArg _ is),
      isPrefixOf_eq_false fun rest is => stderr rest (congrArg _ is),
      isPrefixOf_eq_false fun rest is => bars ('|' :: rest) (congrArg _ is),
      isPrefixOf_eq_false fun rest is => race rest (congrArg _ is),
      isPrefixOf_eq_false fun rest is => bars rest (congrArg _ is)]
    rfl
  all_goals
    next is =>
      obtain ⟨-, rfl⟩ := List.cons.inj is
      simp [List.isPrefixOf]

/-- The byte behind one below 128 is a given one below 128 exactly if the text goes on so. -/
theorem peekAt_one {b : ByteTokenizer} {first c : Char} (split : b.input = front ++ first :: text)
    (here : b.pos = Text.byteLength front) (low : first.toNat < 128) (small : c.toNat < 128) :
    b.peekAt 1 = some c ↔ [c].isPrefixOf text = true := by
  have ascii : ∀ d ∈ [c], d.toNat < 128 := by simpa using small
  rw [ByteTokenizer.peekAt, here, ByteTokenizer.getElem_bytes split, Text.utf8_cons_of_lt low,
    ← Text.isPrefixOf_utf8 ascii]
  cases Text.utf8 text with
  | nil => simp [List.isPrefixOf]
  | cons byte more => simp [List.isPrefixOf, @eq_comm _ byte c]

/-- The same with two bytes. -/
theorem peekAt_two {b : ByteTokenizer} {first c d : Char} (split : b.input = front ++ first :: text)
    (here : b.pos = Text.byteLength front) (low : first.toNat < 128) (small : c.toNat < 128)
    (small' : d.toNat < 128) :
    b.peekAt 1 = some c ∧ b.peekAt 2 = some d ↔ [c, d].isPrefixOf text = true := by
  have ascii : ∀ e ∈ [c, d], e.toNat < 128 := by simpa using ⟨small, small'⟩
  rw [ByteTokenizer.peekAt, ByteTokenizer.peekAt, here, ByteTokenizer.getElem_bytes split,
    ByteTokenizer.getElem_bytes split, Text.utf8_cons_of_lt low, ← Text.isPrefixOf_utf8 ascii]
  rcases Text.utf8 text with _ | ⟨byte, _ | ⟨byte', more⟩⟩
  · simp [List.isPrefixOf]
  · simp [List.isPrefixOf]
  · simp [List.isPrefixOf, @eq_comm _ byte c, @eq_comm _ byte' d]

theorem Tokenizer.Behind.tokenizePipeOrParallel (behind : t.Behind input front) (shape : t.rest = '|' :: text) :
    Matches (SameStep input t.pos) (t.inBytes input).tokenizePipeOrParallel t.tokenizePipeOrParallel := by
  have split : (t.inBytes input).input = front ++ '|' :: text := behind.split.trans (by rw [shape])
  have spaced : ∀ {token : Token} {word : List Char}, token.operatorText.toList ∈ operatorTexts →
      token.operatorText.toList = '|' :: word → word.isPrefixOf text = true →
      Matches (SameStep input t.pos)
        ((t.inBytes input).spacedOperator token token.operatorText token.operatorText.toList.length)
        (t.spacedOperator token) := by
    intro token word operator spelt starts
    obtain ⟨rest, rfl⟩ := List.isPrefixOf_iff_prefix.mp starts
    exact behind.spacedOperator operator (by rw [shape, spelt, List.cons_append])
  rw [tokenizePipeOrParallel_if shape, ByteTokenizer.tokenizePipeOrParallel]
  have bar : '|'.toNat < 128 := by decide
  simp only [peekAt_two split behind.pos bar (by decide : '&'.toNat < 128) (by decide : '>'.toNat < 128),
    peekAt_two split behind.pos bar (by decide : '!'.toNat < 128) (by decide : '>'.toNat < 128),
    peekAt_two split behind.pos bar bar bar, peekAt_two split behind.pos bar (by decide : '?'.toNat < 128) bar]
  simp only [peekAt_one split behind.pos bar (by decide : '>'.toNat < 128), peekAt_one split behind.pos bar bar]
  split_ifs with stdout all stderr parallel race bars
  · exact sameStep_other 2 rfl
  · exact sameStep_other 3 rfl
  · exact sameStep_other 3 rfl
  · exact spaced (by decide) rfl parallel
  · exact spaced (by decide) rfl race
  · exact sameStep_other 2 rfl
  · exact .error _

end Tokens

section Quotes

variable {run rest body : List Char} {c : Char}

theorem doubleQuoted_plain (quote : c ≠ '"') (back : c ≠ '\\') :
    doubleQuoted (c :: rest) = (doubleQuoted rest).map fun (content, text, after) => (c :: content, c :: text, after) := by
  rw [doubleQuoted.eq_def]
  split <;> simp_all
  rfl

/-- Bytes from 128 on stand for themselves. -/
theorem doubleQuoted_high (high : ∀ byte ∈ run, 128 ≤ byte.toNat) :
    doubleQuoted (run ++ rest) =
      (doubleQuoted rest).map fun (content, text, after) => (run ++ content, run ++ text, after) := by
  induction run with
  | nil =>
    rw [List.nil_append]
    cases doubleQuoted rest <;> rfl
  | cons byte run ih =>
    have big := high byte (by simp)
    rw [List.cons_append, doubleQuoted_plain (by rintro rfl; revert big; decide) (by rintro rfl; revert big; decide),
      ih fun other inside => high other (by simp [inside])]
    cases doubleQuoted rest <;> rfl

theorem singleQuoted_high (high : ∀ byte ∈ run, 128 ≤ byte.toNat) :
    singleQuoted (run ++ rest) = (singleQuoted rest).map fun (content, after) => (run ++ content, after) := by
  induction run with
  | nil =>
    rw [List.nil_append]
    cases singleQuoted rest <;> rfl
  | cons byte run ih =>
    have big := high byte (by simp)
    have quote : byte ≠ '\'' := by
      rintro rfl
      revert big
      decide
    rw [List.cons_append, singleQuoted, ih fun other inside => high other (by simp [inside])]
    · cases singleQuoted rest <;> rfl
    · exact quote

/-- What an escaped character stands for. -/
def escapeMeaning (c : Char) : List Char :=
  if c = '"' then ['"'] else if c = '\\' then ['\\'] else if c = 'n' then ['\n'] else if c = 't' then ['\t']
  else ['\\', c]

theorem doubleQuoted_escape (c : Char) (rest : List Char) :
    doubleQuoted ('\\' :: c :: rest) = (doubleQuoted rest).map fun (content, text, after) =>
      (escapeMeaning c ++ content, '\\' :: c :: text, after) := by
  rw [doubleQuoted]
  cases doubleQuoted rest <;> rfl

theorem escapeMeaning_of_high (big : 128 ≤ c.toNat) : escapeMeaning c = ['\\', c] := by
  rw [escapeMeaning, if_neg, if_neg, if_neg, if_neg]
  all_goals
    rintro rfl
    revert big
    decide

theorem utf8_escapeMeaning_of_lt (small : c.toNat < 128) : Text.utf8 (escapeMeaning c) = escapeMeaning c := by
  apply Text.utf8_of_forall
  rw [escapeMeaning]
  split_ifs <;> simp [small]

/-- A quoted string ends at the same quote in the bytes, and has the bytes of its content. -/
theorem doubleQuoted_utf8 (body : List Char) :
    doubleQuoted (Text.utf8 body) = (doubleQuoted body).map fun (content, text, after) =>
      (Text.utf8 content, Text.utf8 text, Text.utf8 after) := by
  induction body using doubleQuoted.induct with
  | case1 => rfl
  | case2 rest =>
    rw [Text.utf8_cons_of_lt (by decide), doubleQuoted, doubleQuoted]
    rfl
  | case3 => rfl
  | case4 c rest ih =>
    rw [Text.utf8_cons_of_lt (by decide), Text.utf8_cons, doubleQuoted_escape c rest]
    rcases Nat.lt_or_ge c.toNat 128 with small | big
    · rw [Text.utf8Char_of_lt small, List.singleton_append, doubleQuoted_escape, ih]
      cases doubleQuoted rest with
      | error => rfl
      | ok found =>
        simp [Except.map, utf8_escapeMeaning_of_lt small, Text.utf8_cons_of_lt (by decide : '\\'.toNat < 128),
          Text.utf8_cons_of_lt small]
    · obtain ⟨first, more, bytes, -⟩ := Text.head_utf8Char c
      have high : ∀ byte ∈ first :: more, 128 ≤ byte.toNat :=
        bytes ▸ fun byte inside => Text.le_of_mem_utf8Char big inside
      obtain ⟨top, high⟩ := List.forall_mem_cons.mp high
      rw [bytes, List.cons_append, doubleQuoted_escape, doubleQuoted_high high, ih, escapeMeaning_of_high big,
        escapeMeaning_of_high top]
      cases doubleQuoted rest with
      | error => rfl
      | ok found =>
        simp [Except.map, bytes, Text.utf8_cons_of_lt (by decide : '\\'.toNat < 128), Text.utf8_cons]
  | case5 c rest quote lone escape ih =>
    have back : c ≠ '\\' := by
      rintro rfl
      cases rest with
      | nil => exact lone rfl rfl
      | cons d rest => exact escape d rest rfl rfl
    rw [Text.utf8_cons, doubleQuoted_plain quote back]
    rcases Nat.lt_or_ge c.toNat 128 with small | big
    · rw [Text.utf8Char_of_lt small, List.singleton_append, doubleQuoted_plain quote back, ih]
      cases doubleQuoted rest with
      | error => rfl
      | ok found => simp [Except.map, Text.utf8_cons_of_lt small]
    · rw [doubleQuoted_high fun byte inside => Text.le_of_mem_utf8Char big inside, ih]
      cases doubleQuoted rest with
      | error => rfl
      | ok found => simp [Except.map, Text.utf8_cons]

theorem singleQuoted_utf8 (body : List Char) :
    singleQuoted (Text.utf8 body) = (singleQuoted body).map fun (content, after) =>
      (Text.utf8 content, Text.utf8 after) := by
  induction body using singleQuoted.induct with
  | case1 => rfl
  | case2 rest =>
    rw [Text.utf8_cons_of_lt (by decide), singleQuoted, singleQuoted]
    rfl
  | case3 c rest quote ih =>
    rw [Text.utf8_cons, singleQuoted.eq_3 _ _ quote]
    rcases Nat.lt_or_ge c.toNat 128 with small | big
    · rw [Text.utf8Char_of_lt small, List.singleton_append, singleQuoted.eq_3 _ _ quote, ih]
      cases singleQuoted rest with
      | none => rfl
      | some found => simp [Text.utf8_cons_of_lt small]
    · rw [singleQuoted_high fun byte inside => Text.le_of_mem_utf8Char big inside, ih]
      cases singleQuoted rest with
      | none => rfl
      | some found => simp [Text.utf8_cons]

section Strings

open Tokenizer

variable {input front : List Char} {t : Tokenizer}

theorem Tokenizer.Behind.tokenizeQuotedString (behind : t.Behind input front) (shape : t.rest = '"' :: body) :
    Matches (SameStep input t.pos) (t.inBytes input).tokenizeQuotedString (t.tokenizeQuotedString body) := by
  have split : (t.inBytes input).input = (front ++ ['"']) ++ body := by
    rw [inBytes, behind.split, shape, List.append_assoc, List.singleton_append]
  have here : (t.inBytes input).pos + 1 = Text.byteLength (front ++ ['"']) := by
    rw [inBytes, behind.pos, Text.byteLength_append]
    rfl
  rw [ByteTokenizer.tokenizeQuotedString, Tokenizer.tokenizeQuotedString, here,
    ByteTokenizer.drop_bytes split, doubleQuoted_utf8]
  cases doubleQuoted body with
  | error escape =>
    cases escape with
    | false => exact .error _
    | true =>
      have size : (t.inBytes input).bytes.length = t.pos + Text.byteLength t.rest := by
        rw [ByteTokenizer.bytes, Text.length_utf8, inBytes, behind.split, Text.byteLength_append, behind.pos]
      rw [← size]
      exact .error _
  | ok found =>
    obtain ⟨content, text, rest⟩ := found
    simp only [Except.map, Text.fromUtf8_utf8, Text.length_utf8]
    rw [← here, Nat.add_assoc]
    exact sameStep_other _ rfl

theorem Tokenizer.Behind.tokenizeSingleQuotedString (behind : t.Behind input front) (shape : t.rest = '\'' :: body) :
    Matches (SameStep input t.pos) (t.inBytes input).tokenizeSingleQuotedString
      (t.tokenizeSingleQuotedString body) := by
  have split : (t.inBytes input).input = (front ++ ['\'']) ++ body := by
    rw [inBytes, behind.split, shape, List.append_assoc, List.singleton_append]
  have here : (t.inBytes input).pos + 1 = Text.byteLength (front ++ ['\'']) := by
    rw [inBytes, behind.pos, Text.byteLength_append]
    rfl
  rw [ByteTokenizer.tokenizeSingleQuotedString, Tokenizer.tokenizeSingleQuotedString, here,
    ByteTokenizer.drop_bytes split, singleQuoted_utf8]
  cases singleQuoted body with
  | none => exact .error _
  | some found =>
    obtain ⟨content, rest⟩ := found
    simp only [Option.map_some, Text.fromUtf8_utf8, Text.length_utf8]
    rw [← here, Nat.add_assoc, Nat.add_assoc]
    have quote : '\''.utf8Size = 1 := rfl
    have size : Text.byteLength ('\'' :: content ++ ['\'']) = 1 + (Text.byteLength content + 1) := by
      rw [List.cons_append, Text.byteLength_cons, Text.byteLength_append, Text.byteLength_cons,
        Text.byteLength_nil, quote]
    exact sameStep_other _ size

end Strings

end Quotes

section Words

open Tokenizer

variable {input front rest text : List Char} {t : Tokenizer} {c : Char}

theorem isDigit_ascii : Text.AsciiOnly Char.isDigit := by
  intro c digit
  simp only [Char.isDigit, Bool.and_eq_true, decide_eq_true_eq, UInt32.le_iff_toNat_le] at digit
  exact Nat.lt_of_le_of_lt digit.2 (by decide)

theorem isIdentChar_ascii : Text.AsciiOnly isIdentChar := by
  intro c ident
  have classes : isIdentChar c = ((decide (c.val ≥ 'A'.val ∧ c.val ≤ 'Z'.val) ||
      (decide (c.val ≥ 'a'.val) && decide (c.val ≤ 'z'.val)) ||
      (decide (c.val ≥ '0'.val) && decide (c.val ≤ '9'.val))) || c == '_') := rfl
  simp only [classes, Bool.or_eq_true, Bool.and_eq_true, decide_eq_true_eq, beq_iff_eq,
    UInt32.le_iff_toNat_le] at ident
  rcases ident with ((⟨-, upper⟩ | ⟨-, lower⟩) | ⟨-, digit⟩) | rfl
  · exact Nat.lt_of_le_of_lt upper (by decide)
  · exact Nat.lt_of_le_of_lt lower (by decide)
  · exact Nat.lt_of_le_of_lt digit (by decide)
  · decide

theorem isDelimiter_ascii : Text.AsciiOnly isDelimiter := by
  intro c delimiter
  simp only [isDelimiter, Bool.or_eq_true, beq_iff_eq, or_assoc] at delimiter
  rcases delimiter with rfl | rfl | rfl | rfl | rfl | rfl | rfl <;> decide

theorem isBlank_ascii : Text.AsciiOnly isBlank := by
  intro c blank
  simp only [isBlank, Bool.or_eq_true, beq_iff_eq] at blank
  rcases blank with rfl | rfl <;> decide

theorem ne_of_high {d : Char} (big : 128 ≤ c.toNat) (small : d.toNat < 128) : c ≠ d := by
  rintro rfl
  omega

theorem utf8Size_of_lt (small : c.toNat < 128) : c.utf8Size = 1 := by
  rw [← Text.length_utf8Char, Text.utf8Char_of_lt small, List.length_singleton]

theorem tryIdKind_of_cons (c : Char) (rest : List Char) :
    tryIdKind (c :: rest) =
      if c = 'J' ∧ rest.head?.any Char.isDigit then some .job
      else if c = 'C' ∧ rest.head?.any Char.isDigit then some .cron
      else none := by
  cases rest with
  | nil => simp [tryIdKind]
  | cons digit rest =>
    by_cases job : c = 'J'
    · subst job
      simp [tryIdKind]
    · by_cases cron : c = 'C'
      · subst cron
        simp [tryIdKind]
      · simp [tryIdKind, job, cron]

theorem Tokenizer.Behind.tryIdKind (behind : t.Behind input front) :
    (t.inBytes input).tryIdKind = CueShell.tryIdKind t.rest := by
  have peek : ∀ offset, (t.inBytes input).peekAt offset = (Text.utf8 t.rest)[offset]? := by
    intro offset
    have here : (t.inBytes input).pos = Text.byteLength front := behind.pos
    rw [ByteTokenizer.peekAt, here]
    exact ByteTokenizer.getElem_bytes behind.split offset
  rw [ByteTokenizer.tryIdKind, peek, peek]
  cases shape : t.rest with
  | nil => rfl
  | cons c rest =>
    rw [tryIdKind_of_cons]
    rcases Nat.lt_or_ge c.toNat 128 with small | big
    · have digit : (Text.utf8 rest).head?.any Char.isDigit = rest.head?.any Char.isDigit := by
        have same := isDigit_ascii.head_utf8 rest
        cases first : (Text.utf8 rest).head? <;> cases first' : rest.head? <;> simp_all
      rw [Text.utf8_cons_of_lt small, List.getElem?_cons_zero, List.getElem?_cons_succ,
        ← List.head?_eq_getElem?, digit]
      simp only [Option.some.injEq]
    · obtain ⟨first, more, bytes, -⟩ := Text.head_utf8Char c
      have high : 128 ≤ first.toNat := Text.le_of_mem_utf8Char big (bytes ▸ List.mem_cons_self)
      rw [Text.utf8_cons, bytes, List.cons_append, List.getElem?_cons_zero]
      simp [ne_of_high big (by decide : 'J'.toNat < 128), ne_of_high big (by decide : 'C'.toNat < 128),
        ne_of_high high (by decide : 'J'.toNat < 128), ne_of_high high (by decide : 'C'.toNat < 128)]

/-- An ID reference is found in the bytes as in the text. -/
theorem Tokenizer.Behind.tokenizeIdRef (behind : t.Behind input front) :
    (t.inBytes input).tokenizeIdRef = pure ((idRefAt t.rest).map fun (kind, number, digits) =>
      (t.inBytes input).other (.idRef kind number) (t.pos + (digits.length + 1))) := by
  rw [ByteTokenizer.tokenizeIdRef, behind.tryIdKind, idRefAt]
  cases announced : CueShell.tryIdKind t.rest with
  | none => rfl
  | some kind =>
    obtain ⟨c, rest, shape⟩ : ∃ c rest, t.rest = c :: rest := by
      apply List.exists_cons_of_ne_nil
      rintro nil
      simp [nil, CueShell.tryIdKind] at announced
    have low : c.toNat < 128 := by
      by_contra big
      rw [shape, tryIdKind_of_cons] at announced
      simp [ne_of_high (Nat.le_of_not_lt big) (by decide : 'J'.toNat < 128),
        ne_of_high (Nat.le_of_not_lt big) (by decide : 'C'.toNat < 128)] at announced
    have parts : rest = rest.takeWhile Char.isDigit ++ rest.dropWhile Char.isDigit :=
      List.takeWhile_append_dropWhile.symm
    rw [shape, List.tail_cons]
    generalize rest.dropWhile Char.isDigit = after at parts ⊢
    have size := isDigit_ascii.byteLength_takeWhile rest
    have here : t.pos + 1 = Text.byteLength (front ++ [c]) := by
      rw [behind.pos, Text.byteLength_append, Text.byteLength_cons, Text.byteLength_nil, utf8Size_of_lt low]
    have split : (t.inBytes input).input = (front ++ [c]) ++ rest := by
      rw [inBytes, behind.split, shape, List.append_assoc, List.singleton_append]
    have stop : (t.inBytes input).skipWhile Char.isDigit (t.pos + 1) =
        t.pos + 1 + (rest.takeWhile Char.isDigit).length := by
      rw [here, ByteTokenizer.skipWhile_split isDigit_ascii split]
    generalize rest.takeWhile Char.isDigit = digits at parts size stop ⊢
    have whole : (t.inBytes input).input = (front ++ [c]) ++ (digits ++ after) := by rw [split, ← parts]
    have next : (t.inBytes input).bytes[t.pos + 1 + digits.length]? = (Text.utf8 after).head? := by
      have deeper : (t.inBytes input).input = (front ++ [c] ++ digits) ++ after := by
        rw [whole, List.append_assoc _ digits]
      rw [here, ← size, ← Text.byteLength_append]
      exact (ByteTokenizer.getElem_bytes deeper 0).trans List.head?_eq_getElem?.symm
    have ident : ((Text.utf8 after).head?.all fun byte => !isIdentChar byte) =
        after.head?.all fun c => !isIdentChar c := by
      have same := isIdentChar_ascii.head_utf8 after
      cases first : (Text.utf8 after).head? <;> cases first' : after.head? <;> simp_all
    have pos : (t.inBytes input).pos = t.pos := rfl
    have cut : (t.inBytes input).slice (t.pos + 1) (t.pos + 1 + digits.length) = pure digits := by
      rw [here, ← size]
      exact ByteTokenizer.slice_split whole
    simp only [pos, stop, next, ident, cut, pure_bind]
    cases digits with
    | nil => simp [Text.parseDigits]
    | cons digit digits =>
      cases ends : after.head?.all fun c => !isIdentChar c with
      | false => simp
      | true =>
        simp only [List.length_cons, and_true, if_true]
        rw [if_pos (by omega), Option.map_map, Nat.add_assoc t.pos 1, Nat.add_comm 1 (digits.length + 1)]
        rfl

/-- A byte from 128 on is no delimiter and starts no operator. -/
theorem isDelimiter_of_high (big : 128 ≤ c.toNat) (inModeParams : Bool) :
    (isDelimiter c || (inModeParams && (c == '=' || c == ','))) = false := by
  have delimiter : isDelimiter c = false := by
    rw [← Bool.not_eq_true]
    intro is
    exact absurd (isDelimiter_ascii c is) (by omega)
  simp [delimiter, ne_of_high big (by decide : '='.toNat < 128), ne_of_high big (by decide : ','.toNat < 128)]

theorem startsWithOperator_of_high (big : 128 ≤ c.toNat) (text : List Char) :
    startsWithOperator (c :: text) = none := by
  rw [startsWithOperator_eq_none]
  intro operator member starts
  have ascii := operatorTexts_ascii operator member
  have nonempty : ∀ operator ∈ operatorTexts, operator ≠ [] := by simp [operatorTexts]
  obtain ⟨d, more, rfl⟩ := List.exists_cons_of_ne_nil (nonempty operator member)
  obtain ⟨rfl, -⟩ := List.cons_prefix_cons.mp starts
  exact absurd (ascii d (by simp)) (by omega)

section Gobble

variable {b : ByteTokenizer} {fuel pos : ℕ} {run more : List Char}

/-- A word goes on through bytes from 128 on. -/
theorem gobbleWord_high (fuel : ℕ) (here : b.bytes.drop pos = run ++ more)
    (high : ∀ byte ∈ run, 128 ≤ byte.toNat) :
    b.gobbleWord (fuel + run.length) pos = b.gobbleWord fuel (pos + run.length) := by
  induction run generalizing pos with
  | nil => rfl
  | cons byte run ih =>
    have big := high byte (by simp)
    have first : b.bytes[pos]? = some byte := by
      rw [← List.head?_drop, here]
      rfl
    have next : b.bytes.drop (pos + 1) = run ++ more := by
      rw [← List.drop_drop, here]
      rfl
    rw [List.length_cons, ← Nat.add_assoc, ByteTokenizer.gobbleWord, first, here]
    dsimp only
    rw [isDelimiter_of_high big, List.cons_append, startsWithOperator_of_high big, if_neg (by decide)]
    dsimp only
    rw [ih next fun other inside => high other (by simp [inside]), Nat.add_assoc pos, Nat.add_comm 1]

/-- A word goes on with a character that is no delimiter and starts no operator. -/
theorem gobbleWord_cons_of_free {inModeParams : Bool} {before : Option Char}
    (go : (isDelimiter c || (inModeParams && (c == '=' || c == ','))) = false)
    (free : startsWithOperator (c :: text) = none) :
    gobbleWord inModeParams before pos (c :: text) =
      (gobbleWord inModeParams (some c) (pos + c.utf8Size) text >>= fun (word, after) => .ok (c :: word, after)) := by
  rw [gobbleWord, go, free, if_neg (by decide)]

/-- A word ends at the same place in the bytes. -/
theorem gobbleWord_split (split : b.input = front ++ text) (enough : Text.byteLength text < fuel) :
    Matches (fun stop (found : List Char × List Char) => stop = Text.byteLength front + Text.byteLength found.1)
      (b.gobbleWord fuel (Text.byteLength front))
      (gobbleWord b.inModeParams front.getLast? (Text.byteLength front) text) := by
  induction text generalizing front fuel with
  | nil =>
    obtain ⟨less, rfl⟩ := Nat.exists_eq_succ_of_ne_zero (Nat.ne_of_gt (Nat.zero_lt_of_lt enough))
    have stop := ByteTokenizer.getElem_bytes split 0
    rw [Nat.add_zero] at stop
    rw [ByteTokenizer.gobbleWord, gobbleWord, stop]
    exact .ok rfl
  | cons c text ih =>
    have last : (front ++ [c]).getLast? = some c := by simp
    have size : Text.byteLength (front ++ [c]) = Text.byteLength front + c.utf8Size := by
      rw [Text.byteLength_append, Text.byteLength_cons, Text.byteLength_nil, Nat.add_zero]
    have longer : b.input = (front ++ [c]) ++ text := by rw [split, List.append_assoc, List.singleton_append]
    have drop := ByteTokenizer.drop_bytes split
    rw [Text.byteLength_cons] at enough
    -- The word goes on with this character: the rest of it is found alike.
    have goes : ∀ less, Text.byteLength text < less → ∀ attempt : Attempt TokenizeError ℕ,
        attempt = b.gobbleWord less (Text.byteLength (front ++ [c])) →
        (isDelimiter c || (b.inModeParams && (c == '=' || c == ','))) = false →
        startsWithOperator (c :: text) = none →
        Matches (fun stop (found : List Char × List Char) =>
          stop = Text.byteLength front + Text.byteLength found.1) attempt
          (gobbleWord b.inModeParams front.getLast? (Text.byteLength front) (c :: text)) := by
      rintro less fits attempt rfl go free
      have found := ih longer fits
      rw [last] at found
      rw [gobbleWord_cons_of_free go free, ← size, ← bind_pure (b.gobbleWord less _)]
      refine found.bind fun stop value same => .ok ?_
      rw [same, size, Text.byteLength_cons, Nat.add_assoc]
    rcases Nat.lt_or_ge c.toNat 128 with small | big
    · obtain ⟨less, rfl⟩ := Nat.exists_eq_succ_of_ne_zero (Nat.ne_of_gt (Nat.zero_lt_of_lt enough))
      have first : b.bytes[Text.byteLength front]? = some c := by
        rw [← List.head?_drop, drop, Text.utf8_cons_of_lt small]
        rfl
      have unit := utf8Size_of_lt small
      rw [ByteTokenizer.gobbleWord, first, drop, startsWithOperator_utf8]
      dsimp only
      split_ifs with stop
      · rw [gobbleWord, if_pos stop]
        exact .ok rfl
      · rw [Bool.not_eq_true] at stop
        cases starts : startsWithOperator (c :: text) with
        | none => exact goes less (by omega) _ (by rw [size, unit]) stop starts
        | some found =>
          obtain ⟨token, boundary⟩ := found
          obtain ⟨⟨rest, spelt⟩, operator⟩ := startsWithOperator_spelt starts
          have ascii := operatorTexts_ascii _ operator
          have split' : b.input = front ++ (token.operatorText.toList ++ rest) := by rw [split, spelt]
          rw [gobbleWord, stop, starts, if_neg (by decide)]
          cases boundary with
          | any => exact .ok rfl
          | whitespaceRequired =>
            have length := operatorLen_eq ((startsWithOperator_utf8 _).trans starts)
            dsimp only
            rw [length, ByteTokenizer.operatorHasRequiredWhitespace_split ascii split', pure_bind, ← spelt,
              ← String.length_toList]
            cases fits : operatorHasRequiredWhitespace front.getLast? (token.operatorText.toList ++ rest)
              token.operatorText.toList.length with
            | true =>
              rw [if_pos rfl, if_neg (by simp)]
              exact .ok rfl
            | false =>
              rw [if_neg (by decide), if_pos ⟨rfl, rfl⟩,
                ByteTokenizer.missingOperatorWhitespaceError_split ascii split']
              exact .error _
    · have enough' : Text.byteLength text < fuel - c.utf8Size := by omega
      refine goes (fuel - c.utf8Size) enough' _ ?_ (isDelimiter_of_high big _) (startsWithOperator_of_high big _)
      have here : b.bytes.drop (Text.byteLength front) = Text.utf8Char c ++ Text.utf8 text := by
        rw [drop, Text.utf8_cons]
      have through := gobbleWord_high (fuel - c.utf8Size) here fun byte inside =>
        Text.le_of_mem_utf8Char big inside
      rw [Text.length_utf8Char, Nat.sub_add_cancel (by omega)] at through
      rw [through, size]

end Gobble

/-- Where a word is empty, the character in its place is below 128. -/
theorem gobbleWord_stuck {flag : Bool} {before : Option Char} {pos : ℕ}
    (found : gobbleWord flag before pos (c :: text) = .ok ([], rest)) : c.toNat < 128 := by
  by_contra big
  have big := Nat.le_of_not_lt big
  rw [gobbleWord_cons_of_free (isDelimiter_of_high big _) (startsWithOperator_of_high big _)] at found
  obtain ⟨⟨word, after⟩, -, done⟩ := Parser.bind_eq_ok.mp found
  simp at done

theorem Tokenizer.Behind.tokenizeRegularWord (behind : t.Behind input front) (nonempty : t.rest ≠ []) :
    Matches (SameStep input t.pos) (t.inBytes input).tokenizeRegularWord t.tokenizeRegularWord := by
  have here : (t.inBytes input).pos = Text.byteLength front := behind.pos
  have enough : Text.byteLength t.rest < (t.inBytes input).bytes.length + 1 := by
    rw [ByteTokenizer.bytes, Text.length_utf8, inBytes, behind.split, Text.byteLength_append]
    omega
  have gobbled : Matches (fun stop (found : List Char × List Char) =>
      stop = Text.byteLength front + Text.byteLength found.1)
      ((t.inBytes input).gobbleWord ((t.inBytes input).bytes.length + 1) (Text.byteLength front))
      (gobbleWord t.inModeParams front.getLast? (Text.byteLength front) t.rest) :=
    gobbleWord_split behind.split enough
  rw [ByteTokenizer.tokenizeRegularWord, Tokenizer.tokenizeRegularWord, here, behind.before, behind.pos]
  cases found : gobbleWord t.inModeParams front.getLast? (Text.byteLength front) t.rest with
  | error error =>
    rw [found] at gobbled
    have ends : (t.inBytes input).gobbleWord _ _ = throw error := gobbled
    rw [ends]
    exact .error error
  | ok value =>
    obtain ⟨word, rest⟩ := value
    rw [found] at gobbled
    obtain ⟨stop, ends, rfl⟩ := gobbled
    have parts := (gobbleWord_ok found).1
    rw [ends, pure_bind]
    by_cases empty : word = []
    · subst empty
      obtain ⟨c, more, shape⟩ := List.exists_cons_of_ne_nil nonempty
      have low : c.toNat < 128 := gobbleWord_stuck (shape ▸ found)
      have split : (t.inBytes input).input = front ++ ([c] ++ more) := by
        rw [inBytes, behind.split, shape, List.singleton_append]
      have cut := ByteTokenizer.slice_split split
      rw [Text.byteLength_cons, Text.byteLength_nil, utf8Size_of_lt low] at cut
      have same : Text.byteLength front + Text.byteLength (([] : List Char), rest).1 = Text.byteLength front := rfl
      rw [if_pos same, cut, pure_bind, shape]
      exact .error _
    · have size := byteLength_pos empty
      have split : (t.inBytes input).input = front ++ (word ++ rest) := by rw [inBytes, behind.split, parts]
      rw [if_neg (by dsimp only; omega), ByteTokenizer.slice_split split, pure_bind]
      change Matches _ _ (if word = [] then _ else _)
      rw [if_neg empty]
      have flag : (t.inBytes input).inModeParams = t.inModeParams := rfl
      rw [flag, ← behind.pos]
      cases (if t.inModeParams then tryParseValue word else none) with
      | none => exact sameStep_other _ rfl
      | some value => exact sameStep_other _ rfl

theorem Tokenizer.Behind.tokenizeColon (behind : t.Behind input front) (shape : t.rest = ':' :: rest) :
    Matches (SameStep input t.pos) (t.inBytes input).tokenizeColon (.ok (t.tokenizeColon rest)) := by
  have here : t.pos + 1 = Text.byteLength (front ++ [':']) := by
    rw [behind.pos, Text.byteLength_append]
    rfl
  have split : (t.inBytes input).input = (front ++ [':']) ++ rest := by
    rw [inBytes, behind.split, shape, List.append_assoc, List.singleton_append]
  have stop : (t.inBytes input).skipWhile isIdentChar (t.pos + 1) =
      t.pos + 1 + (rest.takeWhile isIdentChar).length := by
    rw [here, ByteTokenizer.skipWhile_split isIdentChar_ascii split]
  have size := isIdentChar_ascii.byteLength_takeWhile rest
  have whole : (t.inBytes input).input =
      (front ++ [':']) ++ (rest.takeWhile isIdentChar ++ rest.dropWhile isIdentChar) := by
    rw [List.takeWhile_append_dropWhile, split]
  have pos : (t.inBytes input).pos = t.pos := rfl
  rw [ByteTokenizer.tokenizeColon, Tokenizer.tokenizeColon, pos, stop]
  by_cases empty : rest.takeWhile isIdentChar = []
  · rw [if_neg (by simp [empty]), if_pos empty]
    exact sameStep_other 1 rfl
  · have longer := List.length_pos_of_ne_nil empty
    have cut := ByteTokenizer.slice_split whole
    rw [size, ← here] at cut
    rw [if_pos (by omega), if_neg empty, cut, pure_bind, Nat.add_assoc]
    refine sameStep_emit _ _ _ ?_
    rw [Text.byteLength_cons, size]
    rfl

/-- The byte in front of the tokenizer is a given one below 128 exactly if the character is. -/
theorem Tokenizer.Behind.firstByte (behind : t.Behind input front) (shape : t.rest = c :: rest) :
    ∃ byte, (t.inBytes input).byteAt t.pos = pure byte ∧ byte ∈ Text.utf8Char c ∧
      ∀ d : Char, d.toNat < 128 → (byte = d ↔ c = d) := by
  obtain ⟨first, more, bytes, -⟩ := Text.head_utf8Char c
  have member : first ∈ Text.utf8Char c := bytes ▸ List.mem_cons_self
  refine ⟨first, ?_, member, fun d low => ?_⟩
  · rw [ByteTokenizer.byteAt, behind.pos, ← List.head?_drop, ByteTokenizer.drop_bytes behind.split, shape,
      Text.utf8_cons, bytes]
    rfl
  · have ascii : Text.AsciiOnly (· == d) := by
      intro e same
      obtain rfl : e = d := by simpa using same
      exact low
    have same : (first == d) = (c == d) := ascii.of_mem member
    rw [← beq_iff_eq, same, beq_iff_eq]

/-- The word at a character, where no ID reference stands. -/
theorem tokenizeWord_cons (shape : t.rest = c :: rest) (noId : idRefAt t.rest = none) :
    t.tokenizeWord =
      if t.inModeParams ∧ c = '=' then .ok (t.emitOther .paramEq [c] rest)
      else if t.inModeParams ∧ c = ',' then .ok (t.emitOther .comma [c] rest)
      else if c = '"' then t.tokenizeQuotedString rest
      else if c = '\'' then t.tokenizeSingleQuotedString rest
      else t.tokenizeRegularWord := by
  rw [Tokenizer.tokenizeWord, noId, shape]
  dsimp only
  split
  · next body is =>
    obtain ⟨rfl, rfl⟩ := List.cons.inj is
    simp
  · next body is =>
    obtain ⟨rfl, rfl⟩ := List.cons.inj is
    simp
  · next d after double single is =>
    obtain ⟨rfl, rfl⟩ := List.cons.inj is
    rw [if_neg double, if_neg single]
  · next is => cases is

theorem Tokenizer.Behind.tokenizeWord (behind : t.Behind input front) (shape : t.rest = c :: rest) :
    Matches (SameStep input t.pos) (t.inBytes input).tokenizeWord t.tokenizeWord := by
  have pos : (t.inBytes input).pos = t.pos := rfl
  have flag : (t.inBytes input).inModeParams = t.inModeParams := rfl
  rw [ByteTokenizer.tokenizeWord, behind.tokenizeIdRef, pure_bind]
  cases atHead : idRefAt t.rest with
  | some found =>
    obtain ⟨kind, number, digits⟩ := found
    obtain ⟨taken, -, -, -, numeric⟩ := idRefAt_eq_some atHead
    have size : Text.byteLength (t.rest.take (digits.length + 1)) = digits.length + 1 := by
      rw [taken, Text.byteLength_append, Text.byteLength_of_forall fun c inside => isDigit_ascii c (numeric c inside),
        Nat.add_comm]
      cases kind <;> rfl
    rw [Tokenizer.tokenizeWord, atHead]
    exact sameStep_other _ size
  | none =>
    obtain ⟨byte, first, -, agree⟩ := behind.firstByte shape
    rw [tokenizeWord_cons shape atHead]
    dsimp only [Option.map_none]
    rw [pos, flag, first, pure_bind]
    simp only [agree _ (by decide : '='.toNat < 128), agree _ (by decide : ','.toNat < 128),
      agree _ (by decide : '"'.toNat < 128), agree _ (by decide : '\''.toNat < 128)]
    split_ifs with equals comma double single
    · obtain ⟨-, rfl⟩ := equals
      exact sameStep_other 1 rfl
    · obtain ⟨-, rfl⟩ := comma
      exact sameStep_other 1 rfl
    · exact behind.tokenizeQuotedString (double ▸ shape)
    · exact behind.tokenizeSingleQuotedString (single ▸ shape)
    · exact behind.tokenizeRegularWord (by simp [shape])

/-- The token at a character that is neither a blank nor part of a line end. -/
def Tokenizer.tokenAt (t : Tokenizer) (c : Char) (rest : List Char) : Except TokenizeError (Spanned × Tokenizer) :=
  if c = ':' ∧ (t.pos = 0 ∨ t.lastSignificant = none) then .ok (t.tokenizeColon rest)
  else if c = '(' then
    if t.lastSignificant = some .command then .ok (t.emit .modeParenOpen [c] rest (some .other) true)
    else .ok (t.emitOther .groupOpen [c] rest)
  else if c = ')' then
    if t.inModeParams then .ok (t.emit .modeParenClose [c] rest (some .other) false)
    else .ok (t.emitOther .groupClose [c] rest)
  else if c = '-' ∧ rest.head? = some '>' then t.spacedOperator .serialThen
  else if c = '~' ∧ rest.head? = some '>' then t.spacedOperator .serialAlways
  else if c = '&' ∧ rest.head? = some '&' then .ok (t.emitOther .jobAnd (t.rest.take 2) (t.rest.drop 2))
  else if c = '|' then t.tokenizePipeOrParallel
  else t.tokenizeWord

theorem nextToken_cons (shape : t.rest = c :: rest) :
    t.nextToken =
      if c = '\n' then .ok (t.emit .newline ['\n'] rest none t.inModeParams)
      else if c = '\r' ∧ rest.head? = some '\n' then
        .ok (t.emit .newline ['\r', '\n'] (rest.drop 1) none t.inModeParams)
      else if isBlank c then
        .ok (t.emit (.whitespace (String.ofList (t.rest.takeWhile isBlank))) (t.rest.takeWhile isBlank)
          (t.rest.dropWhile isBlank) t.lastSignificant t.inModeParams)
      else t.tokenAt c rest := by
  rw [Tokenizer.nextToken]
  split
  · next is => simp [is] at shape
  · next after is =>
    obtain ⟨rfl, rfl⟩ := List.cons.inj (is.symm.trans shape)
    rfl
  · next after is =>
    obtain ⟨rfl, rfl⟩ := List.cons.inj (is.symm.trans shape)
    rfl
  · next d after feed back is =>
    obtain ⟨rfl, rfl⟩ := List.cons.inj (is.symm.trans shape)
    have alone : ¬ (d = '\r' ∧ after.head? = some '\n') := by
      rintro ⟨rfl, follows⟩
      obtain ⟨more, rfl⟩ := List.head?_eq_some_iff.mp follows
      exact back more rfl rfl
    rw [if_neg feed, if_neg alone]
    rfl

theorem peekAt_head {b : ByteTokenizer} {first : Char} (split : b.input = front ++ first :: text)
    (here : b.pos = Text.byteLength front) (low : first.toNat < 128) (small : c.toNat < 128) :
    b.peekAt 1 = some c ↔ text.head? = some c := by
  rw [peekAt_one split here low small]
  cases text with
  | nil => simp [List.isPrefixOf]
  | cons d text => simp [List.isPrefixOf, @eq_comm _ c d]

theorem Tokenizer.Behind.tokenAt (behind : t.Behind input front) (shape : t.rest = c :: rest) {byte : Char}
    (agree : ∀ d : Char, d.toNat < 128 → (byte = d ↔ c = d)) :
    Matches (SameStep input t.pos) ((t.inBytes input).tokenAt byte) (t.tokenAt c rest) := by
  have split : (t.inBytes input).input = front ++ c :: rest := behind.split.trans (by rw [shape])
  have peek : ∀ first follow : Char, first.toNat < 128 → follow.toNat < 128 →
      (c = first ∧ (t.inBytes input).peekAt 1 = some follow ↔ c = first ∧ rest.head? = some follow) := by
    intro first follow low small
    refine and_congr_right ?_
    rintro rfl
    exact peekAt_head split behind.pos low small
  have spaced : ∀ {token : Token} {first follow : Char}, token.operatorText.toList ∈ operatorTexts →
      token.operatorText.toList = [first, follow] → c = first ∧ rest.head? = some follow →
      Matches (SameStep input t.pos)
        ((t.inBytes input).spacedOperator token token.operatorText token.operatorText.toList.length)
        (t.spacedOperator token) := by
    rintro token first follow operator spelt ⟨rfl, next⟩
    obtain ⟨more, rfl⟩ := List.head?_eq_some_iff.mp next
    exact behind.spacedOperator operator (by rw [shape, spelt]; rfl)
  rw [ByteTokenizer.tokenAt, Tokenizer.tokenAt]
  simp only [agree _ (by decide : ':'.toNat < 128), agree _ (by decide : '('.toNat < 128),
    agree _ (by decide : ')'.toNat < 128), agree _ (by decide : '-'.toNat < 128),
    agree _ (by decide : '~'.toNat < 128), agree _ (by decide : '&'.toNat < 128),
    agree _ (by decide : '|'.toNat < 128)]
  simp only [peek '-' '>' (by decide) (by decide), peek '~' '>' (by decide) (by decide),
    peek '&' '&' (by decide) (by decide)]
  have pos : (t.inBytes input).pos = t.pos := rfl
  have last : (t.inBytes input).lastSignificant = t.lastSignificant := rfl
  have flag : (t.inBytes input).inModeParams = t.inModeParams := rfl
  rw [pos, last, flag]
  split_ifs with colon opens params closes inside serial always both bar
  · exact behind.tokenizeColon (colon.1 ▸ shape)
  · exact sameStep_emit (some .other) true 1 (opens ▸ rfl)
  · exact sameStep_other 1 (opens ▸ rfl)
  · exact sameStep_emit (some .other) false 1 (closes ▸ rfl)
  · exact sameStep_other 1 (closes ▸ rfl)
  · exact spaced (by decide) rfl serial
  · exact spaced (by decide) rfl always
  · obtain ⟨rfl, next⟩ := both
    obtain ⟨more, rfl⟩ := List.head?_eq_some_iff.mp next
    exact sameStep_other 2 (by rw [shape]; rfl)
  · exact behind.tokenizePipeOrParallel (bar ▸ shape)
  · exact behind.tokenizeWord shape

theorem Tokenizer.Behind.blanks (behind : t.Behind input front) (shape : t.rest = c :: rest)
    (blank : isBlank c = true) :
    Matches (SameStep input t.pos)
      (do
        let blanks ← (t.inBytes input).slice t.pos ((t.inBytes input).skipWhile isBlank (t.pos + 1))
        pure (.whitespace (String.ofList blanks),
          { t.inBytes input with pos := (t.inBytes input).skipWhile isBlank (t.pos + 1) }) :
        Attempt TokenizeError (Token × ByteTokenizer))
      (.ok (t.emit (.whitespace (String.ofList (t.rest.takeWhile isBlank))) (t.rest.takeWhile isBlank)
        (t.rest.dropWhile isBlank) t.lastSignificant t.inModeParams)) := by
  have ascii := isBlank_ascii c blank
  have here : t.pos + 1 = Text.byteLength (front ++ [c]) := by
    rw [behind.pos, Text.byteLength_append, Text.byteLength_cons, Text.byteLength_nil, utf8Size_of_lt ascii]
  have split : (t.inBytes input).input = (front ++ [c]) ++ rest := by
    rw [inBytes, behind.split, shape, List.append_assoc, List.singleton_append]
  have taken : t.rest.takeWhile isBlank = c :: rest.takeWhile isBlank := by
    rw [shape, List.takeWhile_cons_of_pos blank]
  have size := isBlank_ascii.byteLength_takeWhile t.rest
  have stop : (t.inBytes input).skipWhile isBlank (t.pos + 1) = t.pos + Text.byteLength (t.rest.takeWhile isBlank) := by
    rw [here, ByteTokenizer.skipWhile_split isBlank_ascii split, ← here, size, taken, List.length_cons]
    omega
  have whole : (t.inBytes input).input = front ++ (t.rest.takeWhile isBlank ++ t.rest.dropWhile isBlank) := by
    rw [List.takeWhile_append_dropWhile]
    exact behind.split
  have cut := ByteTokenizer.slice_split whole
  rw [← behind.pos] at cut
  rw [stop, cut, pure_bind]
  exact sameStep_emit _ _ _ rfl

theorem Tokenizer.Behind.anyTokenAt (behind : t.Behind input front) (shape : t.rest = c :: rest) {byte : Char}
    (member : byte ∈ Text.utf8Char c) (agree : ∀ d : Char, d.toNat < 128 → (byte = d ↔ c = d)) :
    Matches (SameStep input t.pos) ((t.inBytes input).anyTokenAt byte) t.nextToken := by
  have split : (t.inBytes input).input = front ++ c :: rest := behind.split.trans (by rw [shape])
  have feed : c = '\r' ∧ (t.inBytes input).peekAt 1 = some '\n' ↔ c = '\r' ∧ rest.head? = some '\n' := by
    refine and_congr_right ?_
    rintro rfl
    exact peekAt_head split behind.pos (by decide) (by decide)
  rw [ByteTokenizer.anyTokenAt, nextToken_cons shape, isBlank_ascii.of_mem member]
  simp only [agree _ (by decide : '\n'.toNat < 128), agree _ (by decide : '\r'.toNat < 128), feed]
  split_ifs with line back blank
  · exact sameStep_emit none t.inModeParams 1 rfl
  · exact sameStep_emit none t.inModeParams 2 rfl
  · exact behind.blanks shape blank
  · exact behind.tokenAt shape agree

/-- At a place between two characters the byte tokenizer yields the token over characters. -/
theorem Tokenizer.Behind.nextToken (behind : t.Behind input front) :
    Matches (fun own value => own.1 = value.1 ∧ own.2 = value.2.inBytes input) (t.inBytes input).nextToken
      t.nextToken := by
  have pos : (t.inBytes input).pos = t.pos := rfl
  have size : (t.inBytes input).bytes.length = t.pos + Text.byteLength t.rest := by
    rw [ByteTokenizer.bytes, Text.length_utf8, inBytes, behind.split, Text.byteLength_append, behind.pos]
  rw [ByteTokenizer.nextToken, size, pos]
  cases shape : t.rest with
  | nil =>
    rw [nextToken_nil shape, Text.byteLength_nil, Nat.add_zero, if_pos le_rfl]
    exact .ok ⟨rfl, rfl⟩
  | cons c rest =>
    have longer := c.utf8Size_pos
    obtain ⟨byte, first, member, agree⟩ := behind.firstByte shape
    rw [Text.byteLength_cons, if_neg (by omega), first, pure_bind, ← bind_pure t.nextToken]
    exact (behind.anyTokenAt shape member agree).bind fun own value same => .ok ⟨same.1.symm, same.2⟩

end Words

section Run

open Tokenizer

variable {input front : List Char} {t t' : Tokenizer} {spanned : Spanned}

/-- Behind a token the tokenizer is at a place between two characters again. -/
theorem Tokenizer.Behind.step (behind : t.Behind input front) (found : t.nextToken = .ok (spanned, t'))
    (more : t.rest ≠ []) :
    ∃ text, text ≠ [] ∧ t.rest = text ++ t'.rest ∧ spanned.token ≠ .eof ∧ t'.Behind input (front ++ text) := by
  rcases nextToken_emits found with ⟨none, -⟩ | ⟨token, text, rest, last, flag, lexeme, emitted⟩
  · exact absurd none more
  · simp only [emit, Prod.mk.injEq] at emitted
    obtain ⟨rfl, rfl⟩ := emitted
    refine ⟨text, lexeme.nonempty, lexeme.split, lexeme.ne_eof, ?_, ?_, ?_⟩
    · rw [behind.split, lexeme.split, List.append_assoc]
    · rw [Text.byteLength_append, behind.pos]
    · rw [List.getLast?_append, behind.before]

theorem tokenizeLoop_matches {fuel fuel' : ℕ} (behind : t.Behind input front)
    (enough : Text.byteLength t.rest < fuel) (enough' : t.rest.length < fuel') :
    Matches Eq (ByteTokenizer.tokenizeLoop fuel (t.inBytes input)) (tokenizeLoop fuel' t) := by
  induction fuel generalizing fuel' t front with
  | zero => exact absurd enough (Nat.not_lt_zero _)
  | succ fuel ih =>
    obtain ⟨fuel', rfl⟩ := Nat.exists_eq_succ_of_ne_zero (Nat.ne_of_gt (Nat.zero_lt_of_lt enough'))
    rw [ByteTokenizer.tokenizeLoop, tokenizeLoop]
    have next := behind.nextToken
    cases found : t.nextToken with
    | error error =>
      rw [found] at next
      have ends : (t.inBytes input).nextToken = throw error := next
      rw [ends]
      exact .error error
    | ok value =>
      obtain ⟨spanned, t'⟩ := value
      rw [found] at next
      obtain ⟨⟨own, after⟩, ends, same, same'⟩ := next
      obtain rfl : own = spanned := same
      obtain rfl : after = t'.inBytes input := same'
      rw [ends, pure_bind]
      by_cases more : t.rest = []
      · rw [nextToken_nil more] at found
        obtain ⟨rfl, rfl⟩ := Prod.mk.inj (Except.ok.inj found)
        exact .ok rfl
      · obtain ⟨text, nonempty, split, real, behind'⟩ := behind.step found more
        have size := byteLength_pos nonempty
        have length := List.length_pos_of_ne_nil nonempty
        rw [split, Text.byteLength_append] at enough
        rw [split, List.length_append] at enough'
        dsimp only
        rw [if_neg real]
        change Matches Eq _ (if own.token = .eof then _ else _)
        rw [if_neg real]
        refine (ih behind' (by omega) (by omega)).bind ?_
        rintro tokens _ rfl
        exact .ok rfl

/-- The byte tokenizer ends on every input, with the tokens or the error over characters. -/
theorem tokenize_ends (input : String) : ByteTokenizer.tokenize input = ofExcept (Tokenizer.tokenize input) := by
  rw [← matches_eq_iff]
  have behind : (Tokenizer.new input).Behind input.toList [] := ⟨rfl, rfl, rfl⟩
  refine tokenizeLoop_matches behind ?_ ?_
  · rw [ByteTokenizer.bytes, Text.length_utf8]
    exact Nat.lt_succ_self _
  · rw [Tokenizer.new, String.length_toList]
    exact Nat.lt_succ_self _

end Run

end CueShell
