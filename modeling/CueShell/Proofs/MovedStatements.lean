import CueShell.Proofs.MovedTokens
import CueShell.Proofs.StatementChunks
import CueShell.ToMathlib.Words

/-! # Statements further to the right

The statements of a text are the same behind another text. A command in front of the first of them does not
change where it ends; the command keeps the statement from being dropped as blank.
-/

namespace CueShell

section Slices

theorem dropBytes_moved (front text : List Char) (count : ℕ) :
    Text.dropBytes (Text.byteLength front + count) (front ++ text) = Text.dropBytes count text := by
  induction front with
  | nil => simp
  | cons c front ih =>
    have size := c.utf8Size_pos
    rw [List.cons_append, Text.dropBytes, Text.byteLength_cons, if_neg (by omega), Nat.add_assoc,
      Nat.add_sub_cancel_left, ih]

theorem slice_moved (front text : List Char) (start stop : ℕ) :
    Text.slice (front ++ text) (start + Text.byteLength front) (stop + Text.byteLength front) =
      Text.slice text start stop := by
  rw [Text.slice, Text.slice, Nat.add_comm start, dropBytes_moved]
  congr 1
  omega

end Slices

section Chunks

variable {front text : List Char} {current tokens : List Spanned}

def ScriptChunk.moved (offset : ℕ) (chunk : ScriptChunk) : ScriptChunk :=
  ⟨chunk.tokens.map (Spanned.moved offset), chunk.source, chunk.span.moved offset⟩

theorem map_token_moved (offset : ℕ) (tokens : List Spanned) :
    (tokens.map (Spanned.moved offset)).map Spanned.token = tokens.map Spanned.token := by
  rw [List.map_map]
  rfl

theorem pushScriptChunk_moved (front text : List Char) (current : List Spanned) :
    pushScriptChunk (front ++ text) [] (current.map (Spanned.moved (Text.byteLength front))) =
      (pushScriptChunk text [] current).map (ScriptChunk.moved (Text.byteLength front)) := by
  rw [pushScriptChunk, pushScriptChunk, List.head?_map, List.getLast?_map]
  cases current.head? with
  | none => rfl
  | some first =>
    cases current.getLast? with
    | none => rfl
    | some last =>
      simp only [Option.map_some, Spanned.moved, Span.moved, slice_moved]
      split
      · rfl
      · rfl

/-- The statements that are already there do not matter. -/
theorem pushScriptChunk_append (input : List Char) (chunks : List ScriptChunk) (current : List Spanned) :
    pushScriptChunk input chunks current = chunks ++ pushScriptChunk input [] current := by
  rw [pushScriptChunk, pushScriptChunk]
  split
  · dsimp only
    split
    · rw [List.append_nil]
    · rfl
  · rw [List.append_nil]

theorem splitLoop_append (input : List Char) (chunks : List ScriptChunk) (current : List Spanned) (depth : ℕ)
    (tokens : List Spanned) :
    splitLoop input chunks current depth tokens = chunks ++ splitLoop input [] current depth tokens := by
  induction tokens generalizing chunks current depth with
  | nil => exact pushScriptChunk_append input chunks current
  | cons spanned tokens ih =>
    rw [splitLoop, splitLoop]
    split
    · exact pushScriptChunk_append input chunks current
    · exact ih _ _ _
    · exact ih _ _ _
    · exact ih _ _ _
    · exact ih _ _ _
    · split
      · rw [ih, ih (pushScriptChunk input [] current), pushScriptChunk_append, List.append_assoc]
      · exact ih _ _ _
    · exact ih _ _ _

theorem nextSignificant_moved (offset : ℕ) (tokens : List Spanned) :
    nextSignificant (tokens.map (Spanned.moved offset)) = nextSignificant tokens := by
  rw [nextSignificant, nextSignificant, map_token_moved]

theorem shouldSplitOnNewline_moved (offset : ℕ) (rest : List Spanned) (depth : ℕ) (current : List Spanned) :
    shouldSplitOnNewline (rest.map (Spanned.moved offset)) depth (current.map (Spanned.moved offset)) =
      shouldSplitOnNewline rest depth current := by
  rw [shouldSplitOnNewline, shouldSplitOnNewline, nextSignificant_moved, List.getLast?_map, Option.any_map]
  simp only [List.map_eq_nil_iff]
  rfl

/-- A command in front of a statement does not change where it ends. -/
theorem shouldSplitOnNewline_command (offset : ℕ) (rest : List Spanned) (depth : ℕ) (command : Spanned)
    (nonempty : current ≠ []) :
    shouldSplitOnNewline (rest.map (Spanned.moved offset)) depth
        (command :: current.map (Spanned.moved offset)) = shouldSplitOnNewline rest depth current := by
  refine Eq.trans ?_ (shouldSplitOnNewline_moved offset rest depth current)
  rw [shouldSplitOnNewline, shouldSplitOnNewline]
  obtain ⟨first, others, rfl⟩ := List.exists_cons_of_ne_nil nonempty
  simp only [List.map_cons, List.getLast?_cons_cons, reduceCtorEq, if_false]

/-- The statements of the moved text are the moved statements. -/
theorem splitLoop_moved (front text : List Char) (current : List Spanned) (depth : ℕ) (tokens : List Spanned) :
    splitLoop (front ++ text) [] (current.map (Spanned.moved (Text.byteLength front))) depth
        (tokens.map (Spanned.moved (Text.byteLength front))) =
      (splitLoop text [] current depth tokens).map (ScriptChunk.moved (Text.byteLength front)) := by
  induction tokens generalizing current depth with
  | nil => exact pushScriptChunk_moved front text current
  | cons spanned tokens ih =>
    have longer : current.map (Spanned.moved (Text.byteLength front)) ++ [spanned.moved (Text.byteLength front)] =
        (current ++ [spanned]).map (Spanned.moved (Text.byteLength front)) := by simp
    have same : (spanned.moved (Text.byteLength front)).token = spanned.token := rfl
    rw [List.map_cons, splitLoop, splitLoop, same, longer]
    split
    · exact pushScriptChunk_moved front text current
    · exact ih _ _
    · exact ih _ _
    · exact ih _ _
    · exact ih _ _
    · rw [shouldSplitOnNewline_moved]
      split
      · rw [splitLoop_append, splitLoop_append text, List.map_append, pushScriptChunk_moved]
        exact congrArg _ (ih [] depth)
      · exact ih _ _
    · exact ih _ _

/-- A token ends the statements, belongs to the current one or may end it. -/
theorem Token.splitStep (token : Token) :
    (token = .eof ∧ ∀ input chunks current depth tokens span,
      splitLoop input chunks current depth (⟨token, span⟩ :: tokens) = pushScriptChunk input chunks current) ∨
    (token ≠ .newline ∧ token ≠ .eof) ∧ (∃ change : ℕ → ℕ, ∀ input chunks current depth tokens span,
      splitLoop input chunks current depth (⟨token, span⟩ :: tokens) =
        splitLoop input chunks (current ++ [⟨token, span⟩]) (change depth) tokens) ∨
    (token = .newline ∧ ∀ input chunks current depth tokens span,
      splitLoop input chunks current depth (⟨token, span⟩ :: tokens) =
        if shouldSplitOnNewline tokens depth current then
          splitLoop input (pushScriptChunk input chunks current) [] depth tokens
        else splitLoop input chunks current depth tokens) := by
  cases token with
  | eof => exact .inl ⟨rfl, fun _ _ _ _ _ _ => rfl⟩
  | newline => exact .inr (.inr ⟨rfl, fun _ _ _ _ _ _ => rfl⟩)
  | modeParenOpen => exact .inr (.inl ⟨by simp, (· + 1), fun _ _ _ _ _ _ => rfl⟩)
  | groupOpen => exact .inr (.inl ⟨by simp, (· + 1), fun _ _ _ _ _ _ => rfl⟩)
  | modeParenClose => exact .inr (.inl ⟨by simp, (· - 1), fun _ _ _ _ _ _ => rfl⟩)
  | groupClose => exact .inr (.inl ⟨by simp, (· - 1), fun _ _ _ _ _ _ => rfl⟩)
  | _ => exact .inr (.inl ⟨by simp, id, fun _ _ _ _ _ _ => rfl⟩)

/-- What becomes of the first statement with a command in front of it, and of the others. -/
structure Splits (front text : List Char) (command : Spanned) (current : List Spanned) (depth : ℕ)
    (tokens closing : List Spanned) (later : List ScriptChunk) : Prop where
  bare : splitLoop text [] current depth tokens = pushScriptChunk text [] closing ++ later
  injected : splitLoop (front ++ text) [] (command :: current.map (Spanned.moved (Text.byteLength front))) depth
      (tokens.map (Spanned.moved (Text.byteLength front))) =
    pushScriptChunk (front ++ text) [] (command :: closing.map (Spanned.moved (Text.byteLength front))) ++
      later.map (ScriptChunk.moved (Text.byteLength front))
  head : closing.head? = current.head?
  within : closing.Sublist (current ++ contentTokens tokens)
  behind : ∀ chunk ∈ later, ∀ spanned ∈ chunk.tokens, spanned ∈ tokens

theorem splits_closed {command : Spanned} {depth : ℕ}
    (bare : splitLoop text [] current depth tokens = pushScriptChunk text [] current)
    (injected : splitLoop (front ++ text) [] (command :: current.map (Spanned.moved (Text.byteLength front))) depth
        (tokens.map (Spanned.moved (Text.byteLength front))) =
      pushScriptChunk (front ++ text) [] (command :: current.map (Spanned.moved (Text.byteLength front)))) :
    ∃ closing later, Splits front text command current depth tokens closing later :=
  ⟨current, [], by rw [bare, List.append_nil], by rw [injected, List.map_nil, List.append_nil], rfl,
    List.sublist_append_left _ _, by simp⟩

theorem exists_splits (front text : List Char) (command : Spanned) (nonempty : current ≠ []) (depth : ℕ)
    (tokens : List Spanned) : ∃ closing later, Splits front text command current depth tokens closing later := by
  induction tokens generalizing current depth with
  | nil => exact splits_closed rfl rfl
  | cons spanned tokens ih =>
    rcases spanned.token.splitStep with ⟨-, step⟩ | ⟨content, change, step⟩ | ⟨newline, step⟩
    · exact splits_closed (step _ _ _ _ _ _) (step _ _ _ _ _ _)
    · -- The token belongs to the statement.
      obtain ⟨closing, later, splits⟩ := @ih (current ++ [spanned]) (by simp) (change depth)
      refine ⟨closing, later, (step _ _ _ _ _ _).trans splits.bare, ?_, ?_, ?_, ?_⟩
      · have longer : command :: current.map (Spanned.moved (Text.byteLength front)) ++
            [spanned.moved (Text.byteLength front)] =
              command :: (current ++ [spanned]).map (Spanned.moved (Text.byteLength front)) := by simp
        have injected := splits.injected
        rw [← longer] at injected
        exact (step _ _ _ _ _ _).trans injected
      · rw [splits.head, List.head?_append_of_ne_nil _ nonempty]
      · simpa [contentTokens, content] using splits.within
      · exact fun chunk member other inside => List.mem_cons_of_mem _ (splits.behind chunk member other inside)
    · -- The line end closes the statement, or it goes on behind it.
      have closes : shouldSplitOnNewline (tokens.map (Spanned.moved (Text.byteLength front))) depth
          (command :: current.map (Spanned.moved (Text.byteLength front))) =
            shouldSplitOnNewline tokens depth current := shouldSplitOnNewline_command _ _ _ _ nonempty
      by_cases splits : shouldSplitOnNewline tokens depth current = true
      · refine ⟨current, splitLoop text [] [] depth tokens, ?_, ?_, rfl, List.sublist_append_left _ _, ?_⟩
        · refine (step _ _ _ _ _ _).trans ?_
          rw [if_pos splits]
          exact splitLoop_append ..
        · refine (step _ _ _ _ _ _).trans ?_
          rw [if_pos (closes.trans splits), ← splitLoop_moved]
          exact splitLoop_append ..
        · intro chunk member other inside
          have content : chunk.tokens.Sublist (contentTokens tokens) := by
            simpa using splitLoop_sublist member
          exact List.mem_cons_of_mem _ (List.mem_of_mem_filter (content.subset inside))
      · obtain ⟨closing, later, within⟩ := ih nonempty depth
        have dropped : contentTokens (spanned :: tokens) = contentTokens tokens := by simp [contentTokens, newline]
        refine ⟨closing, later, ?_, ?_, within.head, dropped ▸ within.within, ?_⟩
        · refine (step _ _ _ _ _ _).trans ?_
          rw [if_neg splits]
          exact within.bare
        · refine (step _ _ _ _ _ _).trans ?_
          rw [if_neg fun is => splits (closes.symm.trans is)]
          exact within.injected
        · exact fun chunk member other inside => List.mem_cons_of_mem _ (within.behind chunk member other inside)

end Chunks

section Statements

variable {text : List Char} {closing : List Spanned}

theorem pushScriptChunk_cases (text : List Char) (closing : List Spanned) :
    pushScriptChunk text [] closing = [] ∨ ∃ first last source, closing.head? = some first ∧
      closing.getLast? = some last ∧
      pushScriptChunk text [] closing = [⟨closing, source, ⟨first.span.start, last.span.stop⟩⟩] := by
  rw [pushScriptChunk]
  split
  next first last head final =>
    dsimp only
    split
    · exact .inl rfl
    · exact .inr ⟨first, last, _, head, final, rfl⟩
  next => exact .inl rfl

/-- A statement whose first character is visible is kept. -/
theorem pushScriptChunk_kept {lead rest : List Char} {c : Char} {first last : Spanned}
    (head : closing.head? = some first) (final : closing.getLast? = some last)
    (start : first.span.start = Text.byteLength lead) (stop : Text.byteLength lead < last.span.stop)
    (full : Text.isWhiteSpace c = false) : pushScriptChunk (lead ++ c :: rest) [] closing ≠ [] := by
  have visible : Text.trim (Text.slice (lead ++ c :: rest) first.span.start last.span.stop) ≠ [] := by
    rw [start, Text.slice, Text.dropBytes_append, Text.takeBytes, if_neg (by omega), Ne, Text.trim_eq_nil]
    intro white
    exact absurd (white c (by simp)) (by simp [full])
  rw [pushScriptChunk, head, final]
  dsimp only
  rw [if_neg visible]
  simp

/-- A statement starts with its first token. -/
theorem splitLoop_start {input : List Char} {chunks : List ScriptChunk} {current tokens : List Spanned} {depth : ℕ}
    {chunk : ScriptChunk} (member : chunk ∈ splitLoop input chunks current depth tokens) :
    chunk ∈ chunks ∨ ∃ first, chunk.tokens.head? = some first ∧ chunk.span.start = first.span.start := by
  have pushed : ∀ {chunks : List ScriptChunk} {current : List Spanned}, chunk ∈ pushScriptChunk input chunks current →
      chunk ∈ chunks ∨ ∃ first, chunk.tokens.head? = some first ∧ chunk.span.start = first.span.start := by
    intro chunks current member
    rw [pushScriptChunk_append, List.mem_append] at member
    refine member.imp_right fun new => ?_
    rcases pushScriptChunk_cases input current with none | ⟨first, last, source, head, final, one⟩
    · exact absurd (none ▸ new) List.not_mem_nil
    · rw [one] at new
      rw [List.mem_singleton.mp new]
      exact ⟨first, head, rfl⟩
  induction tokens generalizing chunks current depth with
  | nil => exact pushed member
  | cons spanned tokens ih =>
    rcases spanned.token.splitStep with ⟨-, step⟩ | ⟨-, change, step⟩ | ⟨-, step⟩
    · exact pushed ((step _ _ _ _ _ _) ▸ member)
    · exact ih ((step _ _ _ _ _ _) ▸ member)
    · have member := (step _ _ _ _ _ _) ▸ member
      split_ifs at member
      · rcases ih member with inside | started
        · exact pushed inside
        · exact .inr started
      · exact ih member

end Statements

end CueShell
