import CueShell.Model.InputLine

/-! # Safety of the input line

No operation but a completion panics, and the cursor stays between two characters. The start of the word
at the cursor is one byte behind the white space before it, so a completion panics exactly where that
white space has more bytes.
-/

namespace CueShell.InputLine

open Text

/-- The cursor cuts the content into two texts. -/
structure At (line : InputLine) (front back : List Char) : Prop where
  content : line.content = front ++ back
  cursor : line.cursor = byteLength front

/-- An entry that is shown is one of the history. -/
def Browses (line : InputLine) : Prop := ∀ idx, line.historyIdx = some idx → idx < line.history.length

structure Sound (line : InputLine) : Prop where
  inside : line.cursor ≤ byteLength line.content
  boundary : IsBoundary line.content line.cursor
  browses : line.Browses

/-- An operation does not panic and leaves the cursor between two characters. -/
def Runs (result : Option InputLine) : Prop := ∃ after, result = some after ∧ after.Sound

/-- The last white space in front of the cursor. -/
def lastBlank (line : InputLine) : Option Char :=
  ((upTo line.content line.cursor).getD []).reverse.find? isWhiteSpace

/-- The last white space in front of the cursor, if there is one, has one byte. -/
def NarrowBlank (line : InputLine) : Prop := ∀ c ∈ line.lastBlank, c.utf8Size = 1

/-- The word at the cursor is a part of the content, between two characters on both sides. -/
def WordRangeSound (line : InputLine) : Prop :=
  ∃ start stop, line.currentWordRange = some (start, stop) ∧ start ≤ stop ∧
    stop ≤ byteLength line.content ∧ IsBoundary line.content start ∧ IsBoundary line.content stop

variable {line : InputLine} {front back inside : List Char}

section Placed

theorem Sound.placed (sound : line.Sound) : ∃ front back, line.At front back := by
  obtain ⟨front, back, content, cursor⟩ := sound.boundary
  exact ⟨front, back, content, cursor.symm⟩

theorem At.sound (placed : line.At front back) (browses : line.Browses) : line.Sound where
  inside := by rw [placed.content, placed.cursor, byteLength_append]; exact Nat.le_add_right ..
  boundary := ⟨front, back, placed.content, placed.cursor.symm⟩
  browses := browses

theorem At.runs {after : InputLine} {result : Option InputLine} (done : result = some after)
    (placed : after.At front back) (browses : after.Browses) : Runs result :=
  ⟨after, done, placed.sound browses⟩

theorem Sound.runs (sound : line.Sound) : Runs (some line) := ⟨line, rfl, sound⟩

theorem browses_of_none (shown : line.historyIdx = none) : line.Browses := by
  intro idx same
  rw [shown] at same
  cases same

theorem At.upTo (placed : line.At front back) : Text.upTo line.content line.cursor = some front := by
  rw [placed.content, placed.cursor, upTo_append]

theorem At.behind (placed : line.At front back) : Text.behind line.content line.cursor = some back := by
  rw [placed.content, placed.cursor, behind_append]

theorem At.replaceBefore (placed : line.At (front ++ inside) back) (new : List Char) :
    Text.replaceRange line.content (byteLength front) line.cursor new = some (front ++ new ++ back) := by
  rw [placed.content, placed.cursor, replaceRange_append]

theorem At.replaceBehind (placed : line.At front (inside ++ back)) (new : List Char) :
    Text.replaceRange line.content line.cursor (line.cursor + byteLength inside) new =
      some (front ++ new ++ back) := by
  rw [placed.content, placed.cursor, ← byteLength_append, ← List.append_assoc, replaceRange_append]

end Placed

section Chars

theorem byteLength_concat (front : List Char) (c : Char) :
    byteLength (front ++ [c]) = byteLength front + c.utf8Size := by
  rw [byteLength_append, byteLength_cons, byteLength_nil, Nat.add_zero]

theorem exists_concat_of_pos (positive : 0 < byteLength front) : ∃ before c, front = before ++ [c] := by
  cases front using List.reverseRecOn with
  | nil => exact absurd positive (Nat.lt_irrefl 0)
  | append_singleton before c => exact ⟨before, c, rfl⟩

theorem At.prevSize {c : Char} (placed : line.At (front ++ [c]) back) : line.prevSize = some c.utf8Size := by
  rw [InputLine.prevSize, placed.upTo]
  change some _ = _
  rw [List.getLast?_concat]
  rfl

theorem At.prevCursor {c : Char} (placed : line.At (front ++ [c]) back) :
    checkedSub line.cursor c.utf8Size = some (byteLength front) := by
  rw [placed.cursor, byteLength_concat, checkedSub, if_pos (Nat.le_add_left ..), Nat.add_sub_cancel]

theorem Sound.moveLeft (sound : line.Sound) : Runs line.moveLeft := by
  obtain ⟨front, back, placed⟩ := sound.placed
  rw [InputLine.moveLeft]
  split_ifs with positive
  · rw [placed.cursor] at positive
    obtain ⟨before, c, rfl⟩ := exists_concat_of_pos positive
    rw [placed.prevSize, Option.bind_eq_bind, Option.bind_some, placed.prevCursor]
    exact At.runs rfl ⟨by rw [placed.content, List.append_assoc], rfl⟩ sound.browses
  · exact sound.runs

theorem Sound.backspace (sound : line.Sound) : Runs line.backspace := by
  obtain ⟨front, back, placed⟩ := sound.placed
  rw [InputLine.backspace]
  split_ifs with positive
  · rw [placed.cursor] at positive
    obtain ⟨before, c, rfl⟩ := exists_concat_of_pos positive
    rw [placed.prevSize, Option.bind_eq_bind, Option.bind_some, placed.prevCursor, Option.bind_eq_bind,
      Option.bind_some, placed.replaceBefore]
    exact @At.runs before back _ _ rfl ⟨by rw [List.append_nil], rfl⟩ sound.browses
  · exact sound.runs

theorem At.exists_cons (placed : line.At front back) (more : line.cursor < byteLength line.content) :
    ∃ c rest, back = c :: rest := by
  cases back with
  | nil =>
    rw [placed.content, placed.cursor, List.append_nil] at more
    exact absurd more (Nat.lt_irrefl _)
  | cons c rest => exact ⟨c, rest, rfl⟩

theorem At.nextSize {c : Char} (placed : line.At front (c :: back)) : line.nextSize = some c.utf8Size := by
  rw [InputLine.nextSize, placed.behind]
  rfl

theorem Sound.moveRight (sound : line.Sound) : Runs line.moveRight := by
  obtain ⟨front, back, placed⟩ := sound.placed
  rw [InputLine.moveRight]
  split_ifs with more
  · obtain ⟨c, rest, rfl⟩ := placed.exists_cons more
    rw [placed.nextSize]
    refine @At.runs (front ++ [c]) rest _ _ rfl ⟨?_, ?_⟩ sound.browses
    · rw [placed.content, List.append_assoc, List.singleton_append]
    · rw [placed.cursor, byteLength_concat]
  · exact sound.runs

theorem Sound.delete (sound : line.Sound) : Runs line.delete := by
  obtain ⟨front, back, placed⟩ := sound.placed
  rw [InputLine.delete]
  split_ifs with more
  · obtain ⟨c, rest, rfl⟩ := placed.exists_cons more
    have whole := @At.replaceBehind line front rest [c] placed []
    rw [byteLength_cons, byteLength_nil, Nat.add_zero, List.append_nil] at whole
    rw [placed.nextSize, Option.bind_eq_bind, Option.bind_some, whole]
    exact @At.runs front rest _ _ rfl ⟨rfl, placed.cursor⟩ sound.browses
  · exact sound.runs

theorem Sound.insertText (sound : line.Sound) (text : List Char) : Runs (line.insertText text) := by
  obtain ⟨front, back, placed⟩ := sound.placed
  rw [InputLine.insertText, placed.content, placed.cursor, insertAt_append]
  exact @At.runs (front ++ text) back _ _ rfl ⟨rfl, by rw [byteLength_append]⟩ (browses_of_none rfl)

end Chars

section History

theorem sound_takeInput (line : InputLine) : line.takeInput.2.Sound :=
  @At.sound _ [] [] ⟨rfl, rfl⟩ (browses_of_none rfl)

theorem runs_showEntry {idx : ℕ} (valid : idx < line.history.length) : Runs (line.showEntry idx) := by
  rw [showEntry, List.getElem?_eq_getElem valid]
  refine @At.runs line.history[idx] [] _ _ rfl ⟨(List.append_nil _).symm, rfl⟩ ?_
  intro shown same
  obtain rfl := Option.some.inj same
  exact valid

theorem Sound.historyUp (sound : line.Sound) : Runs line.historyUp := by
  rw [InputLine.historyUp]
  split_ifs with none
  · exact sound.runs
  · split
    · exact runs_showEntry (Nat.sub_lt (List.length_pos_of_ne_nil none) Nat.one_pos)
    · exact sound.runs
    · rename_i idx shown
      exact runs_showEntry (Nat.lt_of_succ_lt (sound.browses _ shown))

theorem Sound.historyDown (sound : line.Sound) : Runs line.historyDown := by
  rw [InputLine.historyDown]
  split
  · exact sound.runs
  · split_ifs with last
    · exact @At.runs line.stashed [] _ _ rfl ⟨(List.append_nil _).symm, rfl⟩ (browses_of_none rfl)
    · exact runs_showEntry (Nat.lt_of_not_le last)

theorem Sound.replaceHistory (sound : line.Sound) (history : List (List Char)) :
    (line.replaceHistory history).Sound :=
  ⟨sound.inside, sound.boundary, browses_of_none rfl⟩

theorem Sound.update (sound : line.Sound) (msg : InputMsg) : (line.update msg).Sound := by
  cases msg with
  | setMode mode => exact ⟨sound.inside, sound.boundary, sound.browses⟩
  | clear => exact @At.sound _ [] [] ⟨rfl, rfl⟩ (browses_of_none rfl)

end History

section Lines

/-- The last line of a text starts at its start or behind a line feed. -/
theorem lineStart_spec (front : List Char) : ∃ before inside, front = before ++ inside ∧
    lineStart front = byteLength before ∧ (before = [] ∨ ∃ above, before = above ++ ['\n']) := by
  rw [lineStart]
  cases found : rfind (· == '\n') front with
  | none => exact ⟨[], front, rfl, rfl, .inl rfl⟩
  | some idx =>
    obtain ⟨above, c, inside, rfl, rfl, feed, -⟩ := rfind_eq_some found
    obtain rfl : c = '\n' := eq_of_beq feed
    exact ⟨above ++ ['\n'], inside, by simp, (byteLength_concat above '\n').symm, .inr ⟨above, rfl⟩⟩

/-- The first line of a text ends at its end or before a line feed. -/
theorem lineEnd_spec (back : List Char) : ∃ inside after, back = inside ++ after ∧
    lineEnd back = byteLength inside ∧ (after = [] ∨ ∃ below, after = '\n' :: below) := by
  rw [lineEnd]
  cases found : find (· == '\n') back with
  | none => exact ⟨back, [], (List.append_nil _).symm, rfl, .inl rfl⟩
  | some idx =>
    obtain ⟨inside, c, below, rfl, rfl, feed, -⟩ := find_eq_some found
    obtain rfl : c = '\n' := eq_of_beq feed
    exact ⟨inside, '\n' :: below, rfl, rfl, .inr ⟨below, rfl⟩⟩

theorem At.currentLineBounds (placed : line.At front back) :
    line.currentLineBounds = some (lineStart front, line.cursor + lineEnd back) := by
  rw [InputLine.currentLineBounds, placed.upTo, placed.behind]
  rfl

theorem Sound.moveToLineStart (sound : line.Sound) : Runs line.moveToLineStart := by
  obtain ⟨front, back, placed⟩ := sound.placed
  obtain ⟨before, inside, rfl, start, -⟩ := lineStart_spec front
  rw [InputLine.moveToLineStart, placed.upTo]
  exact At.runs rfl ⟨by rw [placed.content, List.append_assoc], start⟩ sound.browses

theorem Sound.moveToLineEnd (sound : line.Sound) : Runs line.moveToLineEnd := by
  obtain ⟨front, back, placed⟩ := sound.placed
  obtain ⟨inside, after, rfl, stop, -⟩ := lineEnd_spec back
  rw [InputLine.moveToLineEnd, placed.behind]
  refine @At.runs (front ++ inside) after _ _ rfl ⟨?_, ?_⟩ sound.browses
  · rw [placed.content, List.append_assoc]
  · rw [placed.cursor, stop, byteLength_append]

theorem Sound.deleteToLineStart (sound : line.Sound) : Runs line.deleteToLineStart := by
  obtain ⟨front, back, placed⟩ := sound.placed
  obtain ⟨before, inside, rfl, start, -⟩ := lineStart_spec front
  rw [InputLine.deleteToLineStart, placed.currentLineBounds, Option.bind_eq_bind, Option.bind_some]
  dsimp only
  split_ifs with moves
  · rw [start, placed.replaceBefore]
    exact @At.runs before back _ _ rfl ⟨by rw [List.append_nil], rfl⟩ sound.browses
  · exact sound.runs

theorem Sound.deleteToLineEnd (sound : line.Sound) : Runs line.deleteToLineEnd := by
  obtain ⟨front, back, placed⟩ := sound.placed
  obtain ⟨inside, after, rfl, stop, -⟩ := lineEnd_spec back
  rw [InputLine.deleteToLineEnd, placed.currentLineBounds, Option.bind_eq_bind, Option.bind_some]
  dsimp only
  split_ifs with moves
  · rw [stop, placed.replaceBehind]
    exact @At.runs front after _ _ rfl ⟨by rw [List.append_nil], placed.cursor⟩ sound.browses
  · exact sound.runs

theorem byteOffsetForCharColumn_eq (text : List Char) (column : ℕ) :
    byteOffsetForCharColumn text column = byteLength (text.take column) := by
  rw [byteOffsetForCharColumn]
  split_ifs with zero short
  · rw [zero]
    rfl
  · rfl
  · rw [List.take_of_length_le (Nat.le_of_not_lt short)]

/-- A column of a line is a place between two characters of the text around the line. -/
theorem At.column {text : List Char} (content : line.content = front ++ text ++ back) (column : ℕ) :
    At { line with cursor := byteLength front + byteOffsetForCharColumn text column }
      (front ++ text.take column) (text.drop column ++ back) where
  content := by
    rw [content, List.append_assoc, List.append_assoc, ← List.append_assoc (text.take column),
      List.take_append_drop]
  cursor := by rw [byteOffsetForCharColumn_eq, byteLength_append]

/-- What a move to another line says, and where it leads. -/
def RunsMoved (result : Option (Bool × InputLine)) : Prop := ∃ moved after, result = some (moved, after) ∧ after.Sound

theorem Sound.moveUpLine (sound : line.Sound) : RunsMoved line.moveUpLine := by
  obtain ⟨front, back, placed⟩ := sound.placed
  obtain ⟨before, inside, rfl, start, shape⟩ := lineStart_spec front
  have column : range line.content (byteLength before) line.cursor = some inside := by
    rw [placed.content, placed.cursor, range_append]
  rw [InputLine.moveUpLine, placed.currentLineBounds, Option.bind_eq_bind, Option.bind_some]
  dsimp only
  rw [start]
  rcases shape with rfl | ⟨above, rfl⟩
  · exact ⟨false, line, rfl, sound⟩
  · have prevEnd : byteLength (above ++ ['\n']) - 1 = byteLength above := by
      rw [byteLength_concat]
      exact Nat.add_sub_cancel ..
    have nonzero : byteLength (above ++ ['\n']) ≠ 0 := by
      rw [byteLength_concat]
      exact Nat.succ_ne_zero _
    have content : line.content = above ++ ('\n' :: inside ++ back) := by rw [placed.content]; simp
    obtain ⟨first, prevLine, rfl, prevStart, -⟩ := lineStart_spec above
    have cut : Text.upTo line.content (byteLength (first ++ prevLine)) = some (first ++ prevLine) := by
      rw [content, upTo_append]
    have shown : range line.content (byteLength first) (byteLength (first ++ prevLine)) = some prevLine := by
      rw [content, range_append]
    rw [if_neg nonzero, column, prevEnd]
    dsimp only [Option.bind_eq_bind, Option.bind_some]
    rw [cut, Option.bind_some, prevStart, shown]
    exact ⟨true, _, rfl, (At.column content _).sound sound.browses⟩

theorem Sound.moveDownLine (sound : line.Sound) : RunsMoved line.moveDownLine := by
  obtain ⟨front, back, placed⟩ := sound.placed
  obtain ⟨before, inside, rfl, start, -⟩ := lineStart_spec front
  have column : range line.content (byteLength before) line.cursor = some inside := by
    rw [placed.content, placed.cursor, range_append]
  obtain ⟨rest, after, rfl, stop, shape⟩ := lineEnd_spec back
  rw [InputLine.moveDownLine, placed.currentLineBounds, Option.bind_eq_bind, Option.bind_some]
  dsimp only
  rw [start, stop]
  split_ifs with last
  · exact ⟨false, line, rfl, sound⟩
  · rcases shape with rfl | ⟨below, rfl⟩
    · rw [placed.content, placed.cursor, List.append_nil, ← byteLength_append] at last
      exact absurd le_rfl last
    · obtain ⟨nextLine, after, rfl, nextStop, -⟩ := lineEnd_spec below
      have nextStart : line.cursor + byteLength rest + 1 = byteLength (before ++ inside ++ rest ++ ['\n']) := by
        rw [byteLength_concat, byteLength_append _ rest, placed.cursor]
        rfl
      have content : line.content = before ++ inside ++ rest ++ ['\n'] ++ nextLine ++ after := by
        rw [placed.content]
        simp
      have cut : Text.behind line.content (byteLength (before ++ inside ++ rest ++ ['\n'])) =
          some (nextLine ++ after) := by
        rw [content, List.append_assoc, behind_append]
      have shown : range line.content (byteLength (before ++ inside ++ rest ++ ['\n']))
          (byteLength (before ++ inside ++ rest ++ ['\n']) + byteLength nextLine) = some nextLine := by
        rw [content, ← byteLength_append, range_append]
      rw [column, nextStart]
      dsimp only [Option.bind_eq_bind, Option.bind_some]
      rw [cut, Option.bind_some, nextStop, shown]
      exact ⟨true, _, rfl, (At.column content _).sound sound.browses⟩

theorem Sound.keyUp (sound : line.Sound) : Runs line.keyUp := by
  obtain ⟨moved, next, run, sound'⟩ := sound.moveUpLine
  rw [InputLine.keyUp, run]
  cases moved with
  | true => exact sound'.runs
  | false => exact sound'.historyUp

theorem Sound.keyDown (sound : line.Sound) : Runs line.keyDown := by
  obtain ⟨moved, next, run, sound'⟩ := sound.moveDownLine
  rw [InputLine.keyDown, run]
  cases moved with
  | true => exact sound'.runs
  | false => exact sound'.historyDown

end Lines

section WordMoves

variable (kind : Char → Bool)

/-- The cursor moves to the left over whole characters. -/
theorem leftOver_append (front back : List Char) : ∃ before inside, front = before ++ inside ∧
    leftOver kind (front ++ back) (byteLength front) = some (byteLength before) := by
  induction front using List.reverseRecOn generalizing back with
  | nil =>
    refine ⟨[], [], rfl, ?_⟩
    rw [leftOver]
    rfl
  | append_singleton front c ih =>
    have positive : 0 < byteLength (front ++ [c]) := by
      rw [byteLength_concat]
      exact Nat.add_pos_right _ c.utf8Size_pos
    rw [leftOver, if_pos positive, upTo_append, Option.bind_eq_bind, Option.bind_some, List.getLast?_concat,
      Option.bind_eq_bind, Option.bind_some]
    split_ifs with moves
    · obtain ⟨before, inside, rfl, moved⟩ := ih (c :: back)
      refine ⟨before, inside ++ [c], List.append_assoc .., ?_⟩
      rw [byteLength_concat, Nat.add_sub_cancel, List.append_assoc, List.singleton_append, moved]
    · exact ⟨front ++ [c], [], (List.append_nil _).symm, rfl⟩

/-- The cursor moves to the right over whole characters. -/
theorem rightOver_append (front back : List Char) : ∃ inside after, back = inside ++ after ∧
    rightOver kind (front ++ back) (byteLength front) = some (byteLength (front ++ inside)) := by
  induction back generalizing front with
  | nil =>
    refine ⟨[], [], rfl, ?_⟩
    rw [rightOver, List.append_nil, if_neg (Nat.lt_irrefl _)]
  | cons c back ih =>
    have more : byteLength front < byteLength (front ++ c :: back) := by
      rw [byteLength_append, byteLength_cons]
      have := c.utf8Size_pos
      omega
    rw [rightOver, if_pos more, behind_append, Option.bind_eq_bind, Option.bind_some, List.head?_cons,
      Option.bind_eq_bind, Option.bind_some]
    split_ifs with moves
    · obtain ⟨inside, after, rfl, moved⟩ := ih (front ++ [c])
      refine ⟨c :: inside, after, rfl, ?_⟩
      rw [byteLength_concat, List.append_assoc, List.singleton_append] at moved
      rw [moved, List.append_assoc, List.singleton_append]
    · exact ⟨[], c :: back, rfl, by rw [List.append_nil]; rfl⟩

theorem At.moveWordLeft (placed : line.At front back) : ∃ before inside, front = before ++ inside ∧
    line.moveWordLeft = some { line with cursor := byteLength before } := by
  obtain ⟨dark, blanks, rfl, moved⟩ := leftOver_append isWhiteSpace front back
  obtain ⟨before, word, rfl, moved'⟩ := leftOver_append (!isWhiteSpace ·) dark (blanks ++ back)
  refine ⟨before, word ++ blanks, List.append_assoc .., ?_⟩
  rw [← List.append_assoc] at moved'
  rw [InputLine.moveWordLeft, placed.content, placed.cursor, moved, Option.bind_eq_bind, Option.bind_some, moved']
  rfl

theorem Sound.moveWordLeft (sound : line.Sound) : Runs line.moveWordLeft := by
  obtain ⟨front, back, placed⟩ := sound.placed
  obtain ⟨before, inside, rfl, moved⟩ := placed.moveWordLeft
  exact At.runs moved ⟨by rw [placed.content, List.append_assoc], rfl⟩ sound.browses

theorem Sound.deleteWordLeft (sound : line.Sound) : Runs line.deleteWordLeft := by
  obtain ⟨front, back, placed⟩ := sound.placed
  obtain ⟨before, inside, rfl, moved⟩ := placed.moveWordLeft
  rw [InputLine.deleteWordLeft, moved, Option.bind_eq_bind, Option.bind_some]
  dsimp only
  rw [placed.replaceBefore]
  exact @At.runs before back _ _ rfl ⟨by rw [List.append_nil], rfl⟩ sound.browses

theorem Sound.moveWordRight (sound : line.Sound) : Runs line.moveWordRight := by
  obtain ⟨front, back, placed⟩ := sound.placed
  obtain ⟨blanks, rest, rfl, moved⟩ := rightOver_append isWhiteSpace front back
  obtain ⟨word, after, rfl, moved'⟩ := rightOver_append (!isWhiteSpace ·) (front ++ blanks) rest
  rw [List.append_assoc] at moved'
  rw [InputLine.moveWordRight, placed.content, placed.cursor, moved, Option.bind_eq_bind, Option.bind_some, moved']
  exact @At.runs (front ++ blanks ++ word) after _ _ rfl ⟨by simp, rfl⟩ sound.browses

end WordMoves

section Mouse

theorem isBoundary_pointOffset (column : ℕ) {lines : List (List Char)} {target : ℕ}
    (valid : target < lines.length) :
    IsBoundary (['\n'].intercalate lines) (pointOffset column lines target) := by
  induction lines generalizing target with
  | nil => exact absurd valid (Nat.not_lt_zero _)
  | cons existing rest ih =>
    cases target with
    | zero =>
      obtain ⟨back, joined, -⟩ := intercalate_cons_shape '\n' existing rest
      rw [joined, pointOffset, byteOffsetForCharColumn_eq, ← List.take_append_drop column existing,
        List.append_assoc, List.take_append_drop]
      exact isBoundary_append
    | succ target =>
      cases rest with
      | nil => exact absurd (Nat.lt_of_succ_lt_succ valid) (Nat.not_lt_zero _)
      | cons next more =>
        obtain ⟨front, back, joined, size⟩ := ih (Nat.lt_of_succ_lt_succ valid)
        refine ⟨existing ++ ['\n'] ++ front, back, ?_, ?_⟩
        · rw [List.intercalate_cons_cons, joined, List.append_assoc (existing ++ ['\n']), List.append_assoc]
        · rw [pointOffset, byteLength_append, byteLength_concat, size]
          rfl

theorem sound_setCursorFromPoint (line : InputLine) (areaX areaY column row : ℕ) :
    (line.setCursorFromPoint areaX areaY column row).Sound := by
  have whole : ['\n'].intercalate (line.content.splitOn '\n') = line.content := List.intercalate_splitOn ..
  have valid : min (row - areaY) ((line.content.splitOn '\n').length - 1) < (line.content.splitOn '\n').length := by
    have := List.length_pos_of_ne_nil (List.splitOn_ne_nil '\n' line.content)
    omega
  have boundary := isBoundary_pointOffset (column - areaX - line.promptText.length) valid
  rw [whole] at boundary
  obtain ⟨front, back, content, size⟩ := boundary
  refine @At.sound _ front back ⟨content, ?_⟩ (browses_of_none rfl)
  rw [InputLine.setCursorFromPoint]
  dsimp only
  rw [← size, content, byteLength_append, Nat.min_eq_left (Nat.le_add_right ..)]

end Mouse

section Keys

theorem Sound.moveToEnds (sound : line.Sound) :
    Sound { line with cursor := 0 } ∧ Sound { line with cursor := byteLength line.content } :=
  ⟨@At.sound _ [] line.content ⟨rfl, rfl⟩ sound.browses,
    @At.sound _ line.content [] ⟨(List.append_nil _).symm, rfl⟩ sound.browses⟩

theorem Sound.keyChar (sound : line.Sound) (modifiers : KeyModifiers) (c : Char) :
    Runs (line.keyChar modifiers c) := by
  unfold InputLine.keyChar
  split
  · split
    · exact sound.moveToEnds.1.runs
    · exact sound.moveToEnds.2.runs
    · exact sound.deleteToLineStart
    · exact sound.deleteToLineEnd
    · exact sound.deleteWordLeft
    · exact sound.insertText _
  · exact sound.insertText _

theorem Sound.keyEdit (sound : line.Sound) (modifiers : KeyModifiers) (code : KeyCode) :
    Runs (line.keyEdit modifiers code) := by
  cases code with
  | enter =>
    rw [InputLine.keyEdit]
    split_ifs
    · exact sound.insertText _
    · exact sound.runs
  | left =>
    rw [InputLine.keyEdit]
    split_ifs
    · exact sound.moveWordLeft
    · exact sound.moveToLineStart
    · exact sound.moveLeft
  | right =>
    rw [InputLine.keyEdit]
    split_ifs
    · exact sound.moveWordRight
    · exact sound.moveToLineEnd
    · exact sound.moveRight
  | up => exact sound.keyUp
  | down => exact sound.keyDown
  | home => exact sound.moveToLineStart
  | endKey => exact sound.moveToLineEnd
  | backspace => exact sound.backspace
  | delete => exact sound.delete
  | char c => exact sound.keyChar modifiers c
  | backTab => exact sound.runs
  | other => exact sound.runs

theorem Sound.handleKey (sound : line.Sound) (key : KeyEvent) : Runs ((line.handleKey key).map Prod.fst) := by
  rw [InputLine.handleKey]
  split
  · exact sound.runs
  · split
    · exact sound.runs
    · exact sound.runs
    · exact sound.runs
    · split
      · exact (sound_takeInput line).runs
      · rw [Option.map_map]
        obtain ⟨after, done, sound'⟩ := sound.keyEdit key.modifiers .enter
        exact ⟨after, by rw [done]; rfl, sound'⟩
    · rw [Option.map_map]
      obtain ⟨after, done, sound'⟩ := sound.keyEdit key.modifiers key.code
      exact ⟨after, by rw [done]; rfl, sound'⟩

end Keys

section WordRange

theorem At.lastBlank (placed : line.At front back) :
    line.lastBlank = front.reverse.find? isWhiteSpace := by
  rw [InputLine.lastBlank, placed.upTo]
  rfl

theorem At.currentWordRange (placed : line.At front back) :
    line.currentWordRange = some ((rfind isWhiteSpace front).elim 0 (· + 1),
      line.cursor + (find isWhiteSpace back).getD (byteLength back)) := by
  have inside : min line.cursor (byteLength line.content) = line.cursor := by
    rw [placed.content, placed.cursor, byteLength_append, Nat.min_eq_left (Nat.le_add_right ..)]
  rw [InputLine.currentWordRange, inside, placed.upTo, placed.behind]
  rfl

/-- The word starts between two characters exactly where the white space before it has one byte. -/
theorem At.wordStart (placed : line.At front back) :
    (line.NarrowBlank ∧ ∃ before word, front = before ++ word ∧
      (rfind isWhiteSpace front).elim 0 (· + 1) = byteLength before) ∨
    (¬line.NarrowBlank ∧ ¬IsBoundary line.content ((rfind isWhiteSpace front).elim 0 (· + 1))) := by
  rw [NarrowBlank, placed.lastBlank]
  cases found : rfind isWhiteSpace front with
  | none =>
    have dark : front.reverse.find? isWhiteSpace = none := by
      refine List.find?_eq_none.mpr fun c member => ?_
      rw [rfind_eq_none found c (List.mem_reverse.mp member)]
      exact Bool.false_ne_true
    rw [dark]
    exact .inl ⟨by rintro c ⟨⟩, [], front, rfl, rfl⟩
  | some idx =>
    obtain ⟨before, c, word, rfl, rfl, white, dark⟩ := rfind_eq_some found
    have last : (before ++ c :: word).reverse.find? isWhiteSpace = some c := by
      rw [List.reverse_append, List.reverse_cons, List.append_assoc, List.find?_append]
      have clean : word.reverse.find? isWhiteSpace = none := by
        refine List.find?_eq_none.mpr fun d member => ?_
        rw [dark d (List.mem_reverse.mp member)]
        exact Bool.false_ne_true
      rw [clean, List.singleton_append, List.find?_cons_of_pos white]
      rfl
    have boundary : IsBoundary line.content (byteLength before + 1) ↔ c.utf8Size = 1 := by
      rw [placed.content, List.append_assoc, List.cons_append, isBoundary_succ]
    rw [last]
    by_cases narrow : c.utf8Size = 1
    · refine .inl ⟨?_, before ++ [c], word, by simp, ?_⟩
      · rintro _ ⟨⟩
        exact narrow
      · rw [byteLength_concat, narrow]
        rfl
    · exact .inr ⟨fun all => narrow (all c rfl), fun inside => narrow (boundary.mp inside)⟩

theorem wordEnd_spec (back : List Char) : ∃ word after, back = word ++ after ∧
    (find isWhiteSpace back).getD (byteLength back) = byteLength word := by
  cases found : find isWhiteSpace back with
  | none => exact ⟨back, [], (List.append_nil _).symm, rfl⟩
  | some idx =>
    obtain ⟨word, c, after, rfl, rfl, -, -⟩ := find_eq_some found
    exact ⟨word, c :: after, rfl, rfl⟩

/-- Behind narrow white space the word at the cursor is a part of the content. -/
theorem Sound.word_of_narrow (sound : line.Sound) (narrow : line.NarrowBlank) :
    ∃ front word back, line.content = front ++ word ++ back ∧
      line.currentWordRange = some (byteLength front, byteLength (front ++ word)) := by
  obtain ⟨front, back, placed⟩ := sound.placed
  obtain ⟨-, before, head, rfl, start⟩ | ⟨wide, -⟩ := placed.wordStart
  · obtain ⟨rest, after, rfl, stop⟩ := wordEnd_spec back
    refine ⟨before, head ++ rest, after, by simp [placed.content], ?_⟩
    rw [placed.currentWordRange, start, stop, placed.cursor, ← byteLength_append, List.append_assoc]
  · exact absurd narrow wide

theorem Sound.word_of_wide (sound : line.Sound) (wide : ¬line.NarrowBlank) :
    ∃ start stop, line.currentWordRange = some (start, stop) ∧ ¬IsBoundary line.content start := by
  obtain ⟨front, back, placed⟩ := sound.placed
  obtain ⟨narrow, -⟩ | ⟨-, outside⟩ := placed.wordStart
  · exact absurd narrow wide
  · exact ⟨_, _, placed.currentWordRange, outside⟩

theorem Sound.wordRangeSound_iff (sound : line.Sound) : line.WordRangeSound ↔ line.NarrowBlank := by
  constructor
  · rintro ⟨start, stop, found, -, -, boundary, -⟩
    by_contra wide
    obtain ⟨start', stop', found', outside⟩ := sound.word_of_wide wide
    obtain ⟨rfl, rfl⟩ := Prod.mk.inj (Option.some.inj (found.symm.trans found'))
    exact outside boundary
  · intro narrow
    obtain ⟨front, word, back, content, found⟩ := sound.word_of_narrow narrow
    refine ⟨_, _, found, ?_, ?_, ?_, ?_⟩
    · rw [byteLength_append]
      exact Nat.le_add_right ..
    · rw [content, byteLength_append (front ++ word)]
      exact Nat.le_add_right ..
    · rw [content, List.append_assoc]
      exact isBoundary_append
    · rw [content]
      exact isBoundary_append

theorem Sound.completeInput (sound : line.Sound) (narrow : line.NarrowBlank) (replacement : Option (List Char)) :
    Runs (line.completeInput replacement) := by
  obtain ⟨front, word, back, content, found⟩ := sound.word_of_narrow narrow
  rw [InputLine.completeInput, found, Option.bind_eq_bind, Option.bind_some]
  dsimp only
  rw [content, range_append, Option.bind_eq_bind, Option.bind_some]
  cases replacement with
  | none => exact sound.runs
  | some text =>
    dsimp only
    rw [InputLine.replaceRange, content, replaceRange_append]
    exact @At.runs (front ++ text) back _ _ rfl ⟨rfl, by rw [byteLength_append]⟩ (browses_of_none rfl)

theorem Sound.completeInput_wide (sound : line.Sound) (wide : ¬line.NarrowBlank)
    (replacement : Option (List Char)) : line.completeInput replacement = none := by
  obtain ⟨start, stop, found, outside⟩ := sound.word_of_wide wide
  have panics : range line.content start stop = none := by
    refine Option.eq_none_iff_forall_ne_some.mpr fun word same => outside ?_
    obtain ⟨front, back, content, size, -⟩ := range_eq_some.mp same
    rw [content, ← size, List.append_assoc]
    exact isBoundary_append
  rw [InputLine.completeInput, found, Option.bind_eq_bind, Option.bind_some]
  dsimp only
  rw [panics]
  rfl

end WordRange

section Runs

variable {operations : List Operation}

/-- Whenever the word at the cursor is completed, the white space before it has one byte. -/
def CompletesNarrow (operations : List Operation) : Prop :=
  ∀ front replacement back, operations = front ++ .completeInput replacement :: back →
    ∀ line, run front = some line → line.NarrowBlank

theorem Sound.step (sound : line.Sound) {operation : Operation}
    (narrow : ∀ replacement, operation = .completeInput replacement → line.NarrowBlank) :
    Runs (line.step operation) := by
  cases operation with
  | insertText text => exact sound.insertText text
  | handleKey key => exact sound.handleKey key
  | setCursorFromPoint areaX areaY column row => exact (sound_setCursorFromPoint line areaX areaY column row).runs
  | replaceHistory history => exact (sound.replaceHistory history).runs
  | update msg => exact (sound.update msg).runs
  | completeInput replacement => exact sound.completeInput (narrow replacement rfl) replacement

/-- A step that does not panic keeps the line sound. -/
theorem Sound.step_some {after : InputLine} {operation : Operation} (sound : line.Sound)
    (done : line.step operation = some after) : after.Sound ∧
      ∀ replacement, operation = .completeInput replacement → line.NarrowBlank := by
  have narrow : ∀ replacement, operation = .completeInput replacement → line.NarrowBlank := by
    rintro replacement rfl
    by_contra wide
    rw [InputLine.step, sound.completeInput_wide wide] at done
    cases done
  obtain ⟨after', done', sound'⟩ := sound.step narrow
  obtain rfl := Option.some.inj (done.symm.trans done')
  exact ⟨sound', narrow⟩

theorem sound_new : Sound {} := @At.sound _ [] [] ⟨rfl, rfl⟩ (browses_of_none rfl)

theorem run_concat (operations : List Operation) (operation : Operation) :
    run (operations ++ [operation]) = (run operations).bind fun line => line.step operation := by
  simp only [run, List.foldlM_append, List.foldlM_cons, List.foldlM_nil, bind_pure, Option.bind_eq_bind]

theorem sound_of_run (done : run operations = some line) : line.Sound := by
  induction operations using List.reverseRecOn generalizing line with
  | nil =>
    obtain rfl := Option.some.inj done
    exact sound_new
  | append_singleton operations operation ih =>
    rw [run_concat] at done
    obtain ⟨before, run, step⟩ := Option.bind_eq_some_iff.mp done
    exact ((ih run).step_some step).1

theorem CompletesNarrow.init {operation : Operation} (narrow : CompletesNarrow (operations ++ [operation])) :
    CompletesNarrow operations := by
  rintro front replacement back rfl
  exact narrow front replacement (back ++ [operation]) (by simp)

/-- A run panics only in a completion. -/
theorem isSome_run_iff : (run operations).isSome ↔ CompletesNarrow operations := by
  induction operations using List.reverseRecOn with
  | nil =>
    refine iff_of_true rfl ?_
    intro front replacement back same
    simp at same
  | append_singleton operations operation ih =>
    rw [run_concat]
    constructor
    · intro runs
      obtain ⟨after, done⟩ := Option.isSome_iff_exists.mp runs
      obtain ⟨before, run, step⟩ := Option.bind_eq_some_iff.mp done
      have earlier := ih.mp (Option.isSome_iff_exists.mpr ⟨before, run⟩)
      intro front replacement back parts line run'
      cases back using List.reverseRecOn with
      | nil =>
        obtain ⟨rfl, same⟩ := List.append_inj' parts rfl
        obtain rfl := Option.some.inj (run.symm.trans run')
        exact ((sound_of_run run).step_some step).2 replacement (List.singleton_inj.mp same)
      | append_singleton back last =>
        rw [← List.cons_append, ← List.append_assoc] at parts
        exact earlier front replacement back (List.append_inj' parts rfl).1 line run'
    · intro narrow
      obtain ⟨before, run⟩ := Option.isSome_iff_exists.mp (ih.mpr narrow.init)
      have last : ∀ replacement, operation = .completeInput replacement → before.NarrowBlank := by
        rintro replacement rfl
        exact narrow operations replacement [] rfl before run
      obtain ⟨after, step, -⟩ := (sound_of_run run).step last
      rw [run, Option.bind_some, step]
      rfl

end Runs

/-- In every run the cursor stays between two characters and the browsed entry in the history. Only a
completion can panic, and it does so exactly where the last white space before the cursor has more than
one byte; this is also where the range of the word is wrong. -/
theorem input_line_safety (operations : List Operation) :
    ((run operations).isSome ↔ CompletesNarrow operations) ∧
    ∀ line, run operations = some line → line.Sound ∧ (line.WordRangeSound ↔ line.NarrowBlank) :=
  ⟨isSome_run_iff, fun _ done => ⟨sound_of_run done, (sound_of_run done).wordRangeSound_iff⟩⟩

/-- A word behind an ideographic space is completed from the middle of that space. -/
theorem wide_space_panics :
    (∃ line, run [.insertText ['a', '\u3000', 'b']] = some line ∧ ¬line.WordRangeSound) ∧
      run [.insertText ['a', '\u3000', 'b'], .completeInput (some ['b', ' '])] = none := by
  have inside : Text.cut ['a', '\u3000', 'b'] 2 = none := by decide
  refine ⟨⟨_, rfl, ?_⟩, by decide⟩
  rintro ⟨start, stop, found, -, -, boundary, -⟩
  obtain ⟨rfl, rfl⟩ := Prod.mk.inj (Option.some.inj found)
  obtain ⟨front, back, -, -, cut⟩ := @IsBoundary.cut ['a', '\u3000', 'b'] 2 boundary
  rw [inside] at cut
  cases cut

theorem input_line_safety_spaced :
    ∃ line, run [.insertText "a b".toList, .completeInput (some "bc ".toList)] = some line ∧ line.Sound := by
  have runs := (input_line_safety [.insertText "a b".toList, .completeInput (some "bc ".toList)]).2 _ rfl
  exact ⟨_, rfl, runs.1⟩

end CueShell.InputLine
