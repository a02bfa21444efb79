import CueShell.Model.Parser.Statements

/-! # Statements of an input

What the statements of an input hold: its tokens, in order, without line ends and without the token
for the end of the input. What the lines of a file script hold: no line end, and only the last line
may lack one behind it.
-/

namespace CueShell

variable {input : List Char} {chunk : ScriptChunk} {chunks : List ScriptChunk}
variable {current tokens : List Spanned} {depth : ℕ}

/-- The tokens that a statement can hold. -/
def contentTokens (tokens : List Spanned) : List Spanned :=
  tokens.filter fun spanned => spanned.token ≠ .newline ∧ spanned.token ≠ .eof

theorem mem_pushScriptChunk (member : chunk ∈ pushScriptChunk input chunks current) :
    chunk ∈ chunks ∨ chunk.tokens = current := by
  rw [pushScriptChunk] at member
  split at member
  · dsimp only at member
    split_ifs at member
    · exact .inl member
    · rcases List.mem_append.mp member with old | new
      · exact .inl old
      · rw [List.mem_singleton.mp new]
        exact .inr rfl
  · exact .inl member

theorem sublist_of_push (more : List Spanned) (member : chunk ∈ pushScriptChunk input chunks current) :
    chunk ∈ chunks ∨ chunk.tokens.Sublist (current ++ more) :=
  (mem_pushScriptChunk member).imp id fun closed => by simp [closed]

/-- The tokens of a statement are content tokens of the input, in order. -/
theorem splitLoop_sublist (member : chunk ∈ splitLoop input chunks current depth tokens) :
    chunk ∈ chunks ∨ chunk.tokens.Sublist (current ++ contentTokens tokens) := by
  induction tokens generalizing chunks current depth with
  | nil => exact sublist_of_push _ member
  | cons spanned tokens ih =>
    have kept (content : spanned.token ≠ .newline ∧ spanned.token ≠ .eof) {depth : ℕ}
        (member : chunk ∈ splitLoop input chunks (current ++ [spanned]) depth tokens) :
        chunk ∈ chunks ∨ chunk.tokens.Sublist (current ++ contentTokens (spanned :: tokens)) := by
      simpa [contentTokens, content] using ih member
    rw [splitLoop] at member
    split at member
    · exact sublist_of_push _ member
    · next is => exact kept (by simp [is]) member
    · next is => exact kept (by simp [is]) member
    · next is => exact kept (by simp [is]) member
    · next is => exact kept (by simp [is]) member
    · next is =>
      have dropped : contentTokens (spanned :: tokens) = contentTokens tokens := by
        simp [contentTokens, is]
      rw [dropped]
      split_ifs at member
      · rcases ih member with inside | later
        · exact sublist_of_push _ inside
        · exact .inr (later.trans (List.sublist_append_right _ _))
      · exact ih member
    · next is _ _ _ _ _ _ => exact kept (by simp_all) member

theorem chunk_sublist (member : chunk ∈ splitTopLevelStatements tokens input) :
    chunk.tokens.Sublist (contentTokens tokens) := by
  simpa using splitLoop_sublist member

/-- A statement holds content tokens only. -/
theorem mem_content_of_chunk (member : chunk ∈ splitTopLevelStatements tokens input) :
    ∀ spanned ∈ chunk.tokens, spanned.token ≠ .newline ∧ spanned.token ≠ .eof := by
  intro spanned inside
  simpa using (List.mem_filter.mp ((chunk_sublist member).subset inside)).2

section Lines

variable {text line : List Char} {ended : Bool} {earlier later : List (List Char × Bool)}

theorem splitInclusive_cons {c : Char} (feed : c ≠ '\n') (text : List Char) :
    splitInclusive (c :: text) = match splitInclusive text with
      | [] => [([c], false)]
      | (line, ended) :: lines => (c :: line, ended) :: lines :=
  (splitInclusive.eq_2 c text).trans (if_neg feed)

theorem splitInclusive_line (split : splitInclusive text = earlier ++ (line, ended) :: later) :
    '\n' ∉ line ∧ (ended = false → later = []) := by
  induction text generalizing earlier line with
  | nil => simp [splitInclusive] at split
  | cons c text ih =>
    by_cases feed : c = '\n'
    · rw [splitInclusive, if_pos feed] at split
      cases earlier with
      | nil =>
        simp only [List.nil_append, List.cons.injEq, Prod.mk.injEq] at split
        obtain ⟨⟨rfl, rfl⟩, -⟩ := split
        simp
      | cons first earlier => exact ih (List.cons.inj split).2
    · rw [splitInclusive_cons feed] at split
      cases lines : splitInclusive text with
      | nil =>
        rw [lines] at split
        cases earlier with
        | nil =>
          simp only [List.nil_append, List.cons.injEq, Prod.mk.injEq] at split
          obtain ⟨⟨rfl, rfl⟩, rfl⟩ := split
          simp [Ne.symm feed]
        | cons first earlier => simp at split
      | cons first rest =>
        rw [lines] at split
        cases earlier with
        | nil =>
          simp only [List.nil_append, List.cons.injEq, Prod.mk.injEq] at split
          obtain ⟨⟨rfl, rfl⟩, rfl⟩ := split
          obtain ⟨fresh, last⟩ := @ih first.1 [] (by rw [lines]; rfl)
          exact ⟨by simp [Ne.symm feed, fresh], last⟩
        | cons second earlier =>
          obtain ⟨-, rfl⟩ := List.cons.inj split
          exact @ih line (first :: earlier) lines

end Lines

end CueShell
