import CueShell.Proofs.StatementChunks
import CueShell.Proofs.TokenSpans

/-! # Splitting an input into statements

The statements hold the tokens of the input in order, and line ends between two tokens separate
statements exactly outside of parentheses and away from operators.
-/

namespace CueShell

variable {input : List Char} {current gap front back tokens rest : List Spanned} {depth : ℕ} {a b spanned : Spanned}

/-- The depth of parentheses behind a token. -/
def depthStep (depth : ℕ) : Token → ℕ
  | .modeParenOpen | .groupOpen => depth + 1
  | .modeParenClose | .groupClose => depth - 1
  | _ => depth

def depthAfter (tokens : List Spanned) : ℕ := tokens.foldl (fun depth spanned => depthStep depth spanned.token) 0

/-- The text of a group of tokens without white space around it. -/
def groupSource (input : List Char) (group : List Spanned) : List Char :=
  match group.head?, group.getLast? with
  | some first, some last => Text.trim (Text.slice input first.span.start last.span.stop)
  | _, _ => []

/-- A group that is closed, unless nothing was collected. -/
def closedGroup (current : List Spanned) : List (List Spanned) := if current = [] then [] else [current]

/-- The groups of tokens between the line ends that split, blank ones included. -/
def statementGroups : List Spanned → ℕ → List Spanned → List (List Spanned)
  | current, _, [] => closedGroup current
  | current, depth, spanned :: rest =>
      if spanned.token = .eof then closedGroup current
      else if spanned.token = .newline then
        if shouldSplitOnNewline rest depth current then closedGroup current ++ statementGroups [] depth rest
        else statementGroups current depth rest
      else statementGroups (current ++ [spanned]) (depthStep depth spanned.token) rest

section Chunks

theorem pushScriptChunk_tokens (input : List Char) (chunks : List ScriptChunk) (current : List Spanned) :
    (pushScriptChunk input chunks current).map ScriptChunk.tokens =
      chunks.map ScriptChunk.tokens ++ (closedGroup current).filter fun group => groupSource input group ≠ [] := by
  cases current with
  | nil => simp [pushScriptChunk, closedGroup]
  | cons first others =>
    obtain ⟨last, ends⟩ : ∃ last, (first :: others).getLast? = some last :=
      ⟨_, List.getLast?_eq_getLast_of_ne_nil (List.cons_ne_nil first others)⟩
    rw [pushScriptChunk, closedGroup, if_neg (List.cons_ne_nil first others), List.filter_cons, groupSource, ends,
      List.head?_cons]
    dsimp only
    split_ifs <;> simp_all

/-- Three kinds of tokens: the end, a line end, and those that are collected. -/
theorem splitLoop_cons (input : List Char) (chunks : List ScriptChunk) (current : List Spanned) (depth : ℕ)
    (spanned : Spanned) (rest : List Spanned) : splitLoop input chunks current depth (spanned :: rest) =
      if spanned.token = .eof then pushScriptChunk input chunks current
      else if spanned.token = .newline then
        if shouldSplitOnNewline rest depth current then
          splitLoop input (pushScriptChunk input chunks current) [] depth rest
        else splitLoop input chunks current depth rest
      else splitLoop input chunks (current ++ [spanned]) (depthStep depth spanned.token) rest := by
  rw [splitLoop]
  cases spanned.token <;> simp [depthStep]

/-- The statements are the groups whose text is not blank. -/
theorem splitLoop_tokens (input : List Char) (chunks : List ScriptChunk) (current : List Spanned) (depth : ℕ)
    (tokens : List Spanned) : (splitLoop input chunks current depth tokens).map ScriptChunk.tokens =
      chunks.map ScriptChunk.tokens ++
        (statementGroups current depth tokens).filter fun group => groupSource input group ≠ [] := by
  induction tokens generalizing chunks current depth with
  | nil => exact pushScriptChunk_tokens ..
  | cons spanned rest ih =>
    rw [splitLoop_cons, statementGroups]
    split_ifs
    · exact pushScriptChunk_tokens ..
    · rw [ih, pushScriptChunk_tokens, List.append_assoc, List.filter_append]
    · exact ih ..
    · exact ih ..

end Chunks

section Groups

variable {groups : List (List Spanned)}

theorem nonempty_of_statementGroups (current : List Spanned) (depth : ℕ) (tokens : List Spanned) :
    ∀ group ∈ statementGroups current depth tokens, group ≠ [] := by
  have closed (current : List Spanned) : ∀ group ∈ closedGroup current, group ≠ [] := by
    intro group member
    rw [closedGroup] at member
    split_ifs at member with none
    · simp at member
    · exact List.mem_singleton.mp member ▸ none
  induction tokens generalizing current depth with
  | nil => exact closed current
  | cons spanned rest ih =>
    rw [statementGroups]
    split_ifs
    · exact closed current
    · intro group member
      exact (List.mem_append.mp member).elim (closed current group) (ih [] depth group)
    · exact ih current depth
    · exact ih _ _

theorem flatten_closedGroup (current : List Spanned) : (closedGroup current).flatten = current := by
  rw [closedGroup]
  split_ifs with none
  · exact none.symm
  · simp

/-- The groups hold what was collected and the content tokens, in order; only the last token may be the end. -/
theorem flatten_statementGroups (current : List Spanned) (depth : ℕ) {tokens : List Spanned}
    (ends : ∀ front spanned rest, tokens = front ++ spanned :: rest → spanned.token = .eof → rest = []) :
    (statementGroups current depth tokens).flatten = current ++ contentTokens tokens := by
  induction tokens generalizing current depth with
  | nil => simp [statementGroups, flatten_closedGroup, contentTokens]
  | cons spanned rest ih =>
    have later := fun current depth => ih current depth fun front next more same =>
      ends (spanned :: front) next more (by rw [same]; rfl)
    rw [statementGroups]
    split_ifs with eof newline split
    · obtain rfl := ends [] spanned rest rfl eof
      simp [flatten_closedGroup, contentTokens, eof]
    · rw [List.flatten_append, flatten_closedGroup, later, List.nil_append, contentTokens, contentTokens,
        List.filter_cons_of_neg (by simp [newline])]
    · rw [later, contentTokens, contentTokens, List.filter_cons_of_neg (by simp [newline])]
    · rw [later, contentTokens, contentTokens, List.filter_cons_of_pos (by simp [newline, eof]),
        List.append_assoc, List.singleton_append]

/-- A group that has begun goes on with the next tokens. -/
theorem statementGroups_head (nonempty : current ≠ []) (depth : ℕ) (tokens : List Spanned) :
    ∃ more groups, statementGroups current depth tokens = (current ++ more) :: groups := by
  induction tokens generalizing current depth with
  | nil => exact ⟨[], [], by rw [statementGroups, closedGroup, if_neg nonempty, List.append_nil]⟩
  | cons spanned rest ih =>
    have closed : closedGroup current = [current ++ []] := by rw [closedGroup, if_neg nonempty, List.append_nil]
    rw [statementGroups]
    split_ifs
    · exact ⟨[], [], closed⟩
    · exact ⟨[], _, by rw [closed]; rfl⟩
    · exact ih nonempty depth
    · obtain ⟨more, groups, same⟩ := @ih (current ++ [spanned]) (by simp) (depthStep depth spanned.token)
      exact ⟨spanned :: more, groups, by rw [same, List.append_assoc]; rfl⟩

/-- Some groups end behind the first tokens. -/
def CutsAt (groups : List (List Spanned)) (count : ℕ) : Prop :=
  ∃ before after, groups = before ++ after ∧ before.flatten.length = count

theorem cutsAt_cons {group : List Spanned} {count : ℕ} (positive : 0 < count) :
    CutsAt (group :: groups) (group.length + count) ↔ CutsAt groups count := by
  constructor
  · rintro ⟨before, after, same, size⟩
    cases before with
    | nil =>
      rw [List.flatten_nil, List.length_nil] at size
      omega
    | cons first before =>
      obtain ⟨rfl, rfl⟩ := List.cons.inj same
      rw [List.flatten_cons, List.length_append] at size
      exact ⟨before, after, rfl, by omega⟩
  · rintro ⟨before, after, rfl, size⟩
    exact ⟨group :: before, after, rfl, by rw [List.flatten_cons, List.length_append, size]⟩

theorem cutsAt_first (group : List Spanned) (groups : List (List Spanned)) : CutsAt (group :: groups) group.length :=
  ⟨[group], groups, rfl, by simp⟩

theorem not_cutsAt_inside {group : List Spanned} {count : ℕ} (positive : 0 < count) (inside : count < group.length) :
    ¬ CutsAt (group :: groups) count := by
  rintro ⟨before, after, same, size⟩
  cases before with
  | nil =>
    rw [List.flatten_nil, List.length_nil] at size
    omega
  | cons first before =>
    obtain ⟨rfl, -⟩ := List.cons.inj same
    rw [List.flatten_cons, List.length_append] at size
    omega

end Groups

section Boundaries

/-- A token that a statement can hold. -/
def Content (spanned : Spanned) : Prop := spanned.token ≠ .newline ∧ spanned.token ≠ .eof

/-- Line ends at this depth between these tokens separate statements. -/
def Separates (depth : ℕ) (a b : Spanned) : Prop :=
  depth = 0 ∧ tokenRequiresContinuation a.token = false ∧ tokenRequiresContinuation b.token = false

theorem nextSignificant_gap (lines : ∀ spanned ∈ gap, spanned.token = .newline) (content : Content b)
    (back : List Spanned) : nextSignificant (gap ++ b :: back) = some b.token := by
  induction gap with
  | nil => simp [nextSignificant, content.1, content.2]
  | cons line gap ih =>
    obtain ⟨here, others⟩ := List.forall_mem_cons.mp lines
    simpa [nextSignificant, here] using ih others

theorem shouldSplitOnNewline_gap (last : current.getLast? = some a)
    (lines : ∀ spanned ∈ gap, spanned.token = .newline) (content : Content b) (depth : ℕ) (back : List Spanned) :
    shouldSplitOnNewline (gap ++ b :: back) depth current = true ↔ Separates depth a b := by
  have nonempty : current ≠ [] := by
    rintro rfl
    cases last
  rw [shouldSplitOnNewline, if_neg nonempty, last, nextSignificant_gap lines content, Separates]
  split_ifs with deep operator
  · simp [Nat.pos_iff_ne_zero.mp deep]
  · simp only [Option.any_some] at operator
    simp [operator]
  · simp only [Option.any_some, Bool.not_eq_true] at operator
    simp [operator, Nat.eq_zero_of_not_pos deep]

/-- Line ends with nothing in front of them are skipped. -/
theorem statementGroups_blank (lines : ∀ spanned ∈ gap, spanned.token = .newline) (depth : ℕ) (rest : List Spanned) :
    statementGroups [] depth (gap ++ rest) = statementGroups [] depth rest := by
  induction gap with
  | nil => rfl
  | cons line gap ih =>
    obtain ⟨here, others⟩ := List.forall_mem_cons.mp lines
    rw [List.cons_append, statementGroups, if_neg (by simp [here]), if_pos here, ih others]
    split_ifs <;> rfl

/-- The line ends between two tokens close the group in front of them or are skipped. -/
theorem statementGroups_gap (last : current.getLast? = some a)
    (lines : ∀ spanned ∈ gap, spanned.token = .newline) (content : Content b) (depth : ℕ) (back : List Spanned) :
    (gap ≠ [] ∧ Separates depth a b ∧
      statementGroups current depth (gap ++ b :: back) = current :: statementGroups [] depth (b :: back)) ∨
    (¬ (gap ≠ [] ∧ Separates depth a b) ∧
      statementGroups current depth (gap ++ b :: back) = statementGroups current depth (b :: back)) := by
  induction gap with
  | nil => exact .inr ⟨fun both => both.1 rfl, rfl⟩
  | cons line gap ih =>
    obtain ⟨here, others⟩ := List.forall_mem_cons.mp lines
    have turn : statementGroups current depth (line :: gap ++ b :: back) =
        if shouldSplitOnNewline (gap ++ b :: back) depth current = true then
          closedGroup current ++ statementGroups [] depth (gap ++ b :: back)
        else statementGroups current depth (gap ++ b :: back) := by
      rw [List.cons_append, statementGroups, if_neg (by simp [here]), if_pos here]
    have nonempty : current ≠ [] := by
      rintro rfl
      cases last
    rw [turn]
    by_cases separates : Separates depth a b
    · refine .inl ⟨List.cons_ne_nil _ _, separates, ?_⟩
      rw [if_pos ((shouldSplitOnNewline_gap last others content depth back).mpr separates),
        statementGroups_blank others, closedGroup, if_neg nonempty]
      rfl
    · refine .inr ⟨fun both => separates both.2, ?_⟩
      rw [if_neg fun split => separates ((shouldSplitOnNewline_gap last others content depth back).mp split)]
      rcases ih others with ⟨-, yes, -⟩ | ⟨-, same⟩
      · exact absurd yes separates
      · exact same

theorem statementGroups_content (content : Content spanned) (current : List Spanned) (depth : ℕ)
    (rest : List Spanned) : statementGroups current depth (spanned :: rest) =
      statementGroups (current ++ [spanned]) (depthStep depth spanned.token) rest := by
  rw [statementGroups, if_neg content.2, if_neg content.1]

/-- A group ends between two tokens exactly if line ends between them separate statements there. -/
theorem cutsAt_iff (real : ∀ spanned ∈ front, spanned.token ≠ .eof) (first : Content a) (second : Content b)
    (lines : ∀ spanned ∈ gap, spanned.token = .newline) (current : List Spanned) (depth : ℕ) (back : List Spanned) :
    CutsAt (statementGroups current depth (front ++ a :: (gap ++ b :: back)))
        (current.length + (contentTokens (front ++ [a])).length) ↔
      gap ≠ [] ∧ Separates ((front ++ [a]).foldl (fun depth spanned => depthStep depth spanned.token) depth) a b := by
  induction front generalizing current depth with
  | nil =>
    have one : current.length + (contentTokens ([] ++ [a])).length = (current ++ [a]).length := by
      rw [List.nil_append, contentTokens, List.filter_cons_of_pos (by simp [first.1, first.2])]
      simp
    rw [one, List.nil_append, statementGroups_content first]
    change _ ↔ gap ≠ [] ∧ Separates (depthStep depth a.token) a b
    rcases statementGroups_gap (List.getLast?_concat ..) lines second (depthStep depth a.token) back with
      ⟨more, separates, same⟩ | ⟨kept, same⟩
    · rw [same]
      exact iff_of_true (cutsAt_first ..) ⟨more, separates⟩
    · rw [same, statementGroups_content second]
      refine iff_of_false ?_ kept
      obtain ⟨others, groups, shape⟩ := @statementGroups_head (current ++ [a] ++ [b]) (by simp)
        (depthStep (depthStep depth a.token) b.token) back
      rw [shape]
      exact not_cutsAt_inside (by simp) (by simp)
  | cons spanned front ih =>
    obtain ⟨here, others⟩ := List.forall_mem_cons.mp real
    have positive : 0 < (contentTokens (front ++ [a])).length :=
      List.length_pos_of_mem (a := a) (by simp [contentTokens, first.1, first.2])
    rw [List.cons_append, List.cons_append, statementGroups, if_neg here, List.foldl_cons]
    by_cases newline : spanned.token = .newline
    · have same : contentTokens (spanned :: (front ++ [a])) = contentTokens (front ++ [a]) := by
        rw [contentTokens, List.filter_cons_of_neg (by simp [newline]), contentTokens]
      have level : depthStep depth spanned.token = depth := by
        rw [newline]
        rfl
      rw [if_pos newline, same, level]
      split_ifs with split
      · rw [← ih others [] depth, List.length_nil, Nat.zero_add, closedGroup]
        split_ifs with none
        · rw [none, List.length_nil, Nat.zero_add, List.nil_append]
        · exact cutsAt_cons positive
      · exact ih others current depth
    · have more : contentTokens (spanned :: (front ++ [a])) = spanned :: contentTokens (front ++ [a]) := by
        rw [contentTokens, List.filter_cons_of_pos (by simp [newline, here]), contentTokens]
      have later := ih others (current ++ [spanned]) (depthStep depth spanned.token)
      rw [if_neg newline, more, ← later, List.length_append, List.length_singleton, List.length_cons]
      rw [Nat.add_right_comm, Nat.add_assoc]

end Boundaries

/-- The groups of an input: nonempty, with all its content tokens in order, divided exactly at the line
ends that separate statements. -/
structure DividesAtLineEnds (tokens : List Spanned) (groups : List (List Spanned)) : Prop where
  nonempty : ∀ group ∈ groups, group ≠ []
  whole : groups.flatten = contentTokens tokens
  boundary : ∀ front a gap b back, tokens = front ++ a :: (gap ++ b :: back) → Content a → Content b →
    (∀ spanned ∈ gap, spanned.token = .newline) →
      ((∃ before after, groups = before ++ after ∧ before.flatten = contentTokens (front ++ [a])) ↔
        gap ≠ [] ∧ Separates (depthAfter (front ++ [a])) a b)

theorem Chained.real_before {pos : ℕ} {text : List Char} (chained : Chained pos text tokens) :
    tokens.Pairwise fun first _ => first.token ≠ .eof := by
  induction chained with
  | nil => exact List.pairwise_singleton ..
  | cons nonempty real chained ih => exact List.pairwise_cons.mpr ⟨fun _ _ => real, ih⟩

/-- The tokens for the parser are the tokens of the input without blanks, and only the last is the end. -/
theorem tokenizeForParser_ends_last {input : String} (found : tokenizeForParser input = .ok tokens) :
    ∀ front spanned rest, tokens = front ++ spanned :: rest → spanned.token = .eof → rest = [] := by
  rw [tokenizeForParser] at found
  split at found
  · cases found
  · next all tokenized =>
    obtain rfl := Except.ok.inj found
    rintro front spanned rest same eof
    have real := (tokenize_chained tokenized).real_before.filter fun spanned => !spanned.token.isWhitespace
    rw [same] at real
    have before := (List.pairwise_cons.mp (List.pairwise_append.mp real).2.1).1
    exact List.eq_nil_iff_forall_not_mem.mpr fun later member => before later member eof

/-- The statements of an input are its groups of tokens with a text that is not blank, and the groups are
divided at the line ends between complete statements and nowhere else. -/
theorem statements_split (input : String) (tokens : List Spanned) (found : tokenizeForParser input = .ok tokens) :
    ∃ groups, DividesAtLineEnds tokens groups ∧
      (splitTopLevelStatements tokens input.toList).map ScriptChunk.tokens =
        groups.filter fun group => groupSource input.toList group ≠ [] := by
  have ends := tokenizeForParser_ends_last found
  have whole := flatten_statementGroups [] 0 ends
  refine ⟨statementGroups [] 0 tokens, ⟨nonempty_of_statementGroups _ _ _, whole, ?_⟩, splitLoop_tokens ..⟩
  rintro front a gap b back rfl first second lines
  have real : ∀ spanned ∈ front, spanned.token ≠ .eof := by
    intro spanned member eof
    obtain ⟨before, after, rfl⟩ := List.append_of_mem member
    have none := ends before spanned (after ++ a :: (gap ++ b :: back)) (by simp) eof
    simp at none
  rw [depthAfter, ← cutsAt_iff real first second lines [] 0 back, List.length_nil, Nat.zero_add]
  constructor
  · rintro ⟨before, after, same, flat⟩
    exact ⟨before, after, same, by rw [flat]⟩
  · rintro ⟨before, after, same, size⟩
    refine ⟨before, after, same, ?_⟩
    have parts : before.flatten ++ after.flatten =
        contentTokens (front ++ [a]) ++ contentTokens (gap ++ b :: back) := by
      rw [← List.flatten_append, ← same, whole, List.nil_append, List.append_cons, contentTokens,
        List.filter_append, contentTokens, contentTokens]
    exact (List.append_inj parts size).1

theorem statements_split_lines : ∃ tokens, tokenizeForParser "ls ->\ncat\npwd" = .ok tokens ∧
    ∃ groups, DividesAtLineEnds tokens groups ∧
      (splitTopLevelStatements tokens "ls ->\ncat\npwd".toList).map ScriptChunk.tokens =
        groups.filter fun group => groupSource "ls ->\ncat\npwd".toList group ≠ [] := by
  obtain ⟨tokens, found⟩ : ∃ tokens, tokenizeForParser "ls ->\ncat\npwd" = .ok tokens := ⟨_, rfl⟩
  exact ⟨tokens, found, statements_split _ tokens found⟩

end CueShell
