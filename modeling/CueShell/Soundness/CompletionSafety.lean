import CueShell.Model.Completion
import CueShell.Soundness.AliasRewriting
import CueShell.Soundness.InputLineSafety
import Mathlib.Data.List.DropRight

/-! # Safety of the completion

The command of a cron line is taken to start one byte behind its schedule, so a completion panics where
the line ends there or goes on with a wider character. Everything else is cut between two characters, and
a replacement for several candidates is what they have in common.
-/

namespace CueShell.Completion

open Text

variable {Error : Type} {listing : Listing Error} {scope : CompletionScope} {text word front back : List Char}

section Spec

/-- The line at the cursor, up to the cursor. -/
def CompletionScope.linePrefix (scope : CompletionScope) : List Char :=
  ((upTo scope.content (min scope.cursor (byteLength scope.content))).getD []).rtakeWhile (· ≠ '\n')

/-- The text behind the first words of a text. -/
def behindWords : ℕ → List Char → List Char
  | 0, text => text
  | count + 1, text => behindWords count ((trimStart text).dropWhile (!isWhiteSpace ·))

/-- The cursor and the range of the word are inside the content, between two characters. -/
structure CompletionScope.Sound (scope : CompletionScope) : Prop where
  cursor : IsBoundary scope.content (min scope.cursor (byteLength scope.content))
  ordered : scope.wordRange.1 ≤ scope.wordRange.2
  start : IsBoundary scope.content scope.wordRange.1
  stop : IsBoundary scope.content scope.wordRange.2

/-- A schedule that is complete is followed by a character of one byte. -/
def NarrowBehindSchedule (linePrefix : List Char) : Prop :=
  ∀ count, startAfter (splitWhitespace linePrefix) = some count →
    count ≤ (splitWhitespace linePrefix).length →
      ∃ c rest, behindWords count linePrefix = c :: rest ∧ c.utf8Size = 1

end Spec

section Schedule

theorem trimStart_white {c : Char} (white : isWhiteSpace c = true) (rest : List Char) :
    trimStart (c :: rest) = trimStart rest := by
  rw [trimStart, List.dropWhile_cons_of_pos white, trimStart]

theorem trimStart_dark_cons {c : Char} (dark : isWhiteSpace c = false) (rest : List Char) :
    trimStart (c :: rest) = c :: rest := by
  rw [trimStart, List.dropWhile_cons_of_neg (by rw [dark]; decide)]

theorem behindWords_white {c : Char} (white : isWhiteSpace c = true) (count : ℕ) (rest : List Char) :
    behindWords (count + 1) (c :: rest) = behindWords (count + 1) rest := by
  rw [behindWords, trimStart_white white, behindWords]

/-- The words of a text end where the text behind them starts. -/
theorem tokenSpansFrom_stop {pos k start stop : ℕ} (found : (tokenSpansFrom pos text)[k]? = some (start, stop)) :
    ∃ lead, text = lead ++ behindWords (k + 1) text ∧ stop = pos + byteLength lead := by
  fun_induction tokenSpansFrom pos text generalizing k with
  | case1 pos => simp at found
  | case2 pos c rest white ih =>
    obtain ⟨lead, parts, rfl⟩ := ih found
    refine ⟨c :: lead, ?_, by rw [byteLength_cons, Nat.add_assoc]⟩
    rw [behindWords_white white, List.cons_append, ← parts]
  | case3 pos c rest dark stop' =>
    rename_i ih
    have dark : isWhiteSpace c = false := by simpa using dark
    have behind (count : ℕ) : behindWords (count + 1) (c :: rest) =
        behindWords count (rest.dropWhile (!isWhiteSpace ·)) := by
      rw [behindWords, trimStart_dark_cons dark, List.dropWhile_cons_of_pos (by rw [dark]; rfl)]
    have whole : c :: rest = (c :: rest.takeWhile (!isWhiteSpace ·)) ++ rest.dropWhile (!isWhiteSpace ·) := by
      rw [List.cons_append, List.takeWhile_append_dropWhile]
    have size : stop' = pos + byteLength (c :: rest.takeWhile (!isWhiteSpace ·)) := by
      rw [byteLength_cons, ← Nat.add_assoc]
    rw [behind]
    cases k with
    | zero =>
      obtain ⟨-, rfl⟩ := Prod.mk.inj (Option.some.inj found)
      exact ⟨_, whole, size⟩
    | succ k =>
      obtain ⟨lead, parts, rfl⟩ := ih found
      refine ⟨c :: rest.takeWhile (!isWhiteSpace ·) ++ lead, ?_, ?_⟩
      · rw [List.append_assoc, ← parts]
        exact whole
      · rw [size, byteLength_append, Nat.add_assoc]

theorem splitWhitespace_trimStart (text : List Char) : splitWhitespace (trimStart text) = splitWhitespace text := by
  induction text with
  | nil => rfl
  | cons c rest ih =>
    cases white : isWhiteSpace c with
    | true => rw [trimStart_white white, splitWhitespace_white white, ih]
    | false => rw [trimStart_dark_cons white]

theorem trimStart_trimStart (text : List Char) : trimStart (trimStart text) = trimStart text := by
  induction text with
  | nil => rfl
  | cons c rest ih =>
    cases white : isWhiteSpace c with
    | true => rw [trimStart_white white, ih]
    | false => rw [trimStart_dark_cons white, trimStart_dark_cons white]

theorem behindWords_trimStart (count : ℕ) (text : List Char) :
    behindWords (count + 1) (trimStart text) = behindWords (count + 1) text := by
  rw [behindWords, trimStart_trimStart, behindWords]

theorem startAfter_pos {tokens : List (List Char)} {count : ℕ} (found : startAfter tokens = some count) : 0 < count := by
  obtain ⟨first, -, found⟩ := Option.bind_eq_some_iff.mp found
  split_ifs at found <;> (obtain rfl := Option.some.inj found; decide)

/-- The command starts one byte behind the schedule. -/
theorem cronCommandStart_spec (linePrefix : List Char) :
    (cronCommandStart linePrefix = some none ∧ NarrowBehindSchedule linePrefix) ∨
    ∃ count lead, startAfter (splitWhitespace linePrefix) = some count ∧
      count ≤ (splitWhitespace linePrefix).length ∧
      linePrefix = lead ++ behindWords count linePrefix ∧
      cronCommandStart linePrefix = some (some (byteLength lead + 1)) := by
  have tokens : tokenTexts (trimStart linePrefix) = some (splitWhitespace linePrefix) := by
    rw [tokenTexts, (tokenSpans_spec _).1, splitWhitespace_trimStart]
  rw [cronCommandStart, tokens, Option.bind_eq_bind, Option.bind_some]
  cases found : startAfter (splitWhitespace linePrefix) with
  | none => exact .inl ⟨rfl, fun count same => by rw [found] at same; cases same⟩
  | some count =>
    dsimp only
    split_ifs with short
    · refine .inl ⟨rfl, fun count' same long => ?_⟩
      obtain rfl := Option.some.inj (found.symm.trans same)
      exact absurd long (Nat.not_le.mpr short)
    · have positive := startAfter_pos found
      have bound : count - 1 < (tokenSpans (trimStart linePrefix)).length := by
        rw [length_tokenSpans, splitWhitespace_trimStart]
        omega
      obtain ⟨⟨start, stop⟩, here⟩ : ∃ span, (tokenSpans (trimStart linePrefix))[count - 1]? = some span :=
        ⟨_, List.getElem?_eq_getElem bound⟩
      obtain ⟨lead, parts, rfl⟩ := tokenSpansFrom_stop here
      obtain ⟨before, same⟩ : ∃ before, count = before + 1 := Nat.exists_eq_succ_of_ne_zero positive.ne'
      have blanks : linePrefix.takeWhile isWhiteSpace ++ trimStart linePrefix = linePrefix :=
        List.takeWhile_append_dropWhile
      have leading : byteLength linePrefix - byteLength (trimStart linePrefix) =
          byteLength (linePrefix.takeWhile isWhiteSpace) := by
        nth_rewrite 1 [← blanks]
        rw [byteLength_append, Nat.add_sub_cancel]
      refine .inr ⟨count, linePrefix.takeWhile isWhiteSpace ++ lead, rfl, Nat.le_of_not_lt short, ?_, ?_⟩
      · rw [Nat.sub_add_cancel positive] at parts
        rw [same, behindWords_trimStart, ← same] at parts
        rw [List.append_assoc, ← parts, blanks]
      · rw [here, leading, Nat.zero_add, byteLength_append]
        rfl

end Schedule

section Candidates

theorem isSome_displayPrefix (word : List Char) : (displayPrefix word).isSome := by
  rw [displayPrefix]
  split_ifs
  · rfl
  · rfl
  · cases found : rfind (· == '/') word with
    | none => rfl
    | some index =>
      obtain ⟨front, c, back, rfl, rfl, slash, -⟩ := rfind_eq_some found
      obtain rfl : c = '/' := eq_of_beq slash
      have cut := upTo_append (front ++ ['/']) back
      rw [InputLine.byteLength_concat, List.append_assoc] at cut
      exact Option.isSome_iff_exists.mpr ⟨_, cut⟩

/-- The candidates of a shell line never panic. -/
theorem isSome_shellSegment (listing : Listing Error) (linePrefix word : List Char) :
    (shellSegmentCompletionCandidates listing linePrefix word).isSome := by
  have paths : (pathCompletionCandidates listing word).isSome := by
    rw [pathCompletionCandidates]
    cases listing.entries word with
    | error error => rfl
    | ok entries =>
      obtain ⟨shown, found⟩ := Option.isSome_iff_exists.mp (isSome_displayPrefix word)
      dsimp only
      rw [found]
      rfl
  obtain ⟨result, found⟩ := Option.isSome_iff_exists.mp paths
  rw [shellSegmentCompletionCandidates, found]
  cases result with
  | error error => rfl
  | ok paths => rfl

theorem behind_succ (front back : List Char) :
    (behind (front ++ back) (byteLength front + 1)).isSome ↔ ∃ c rest, back = c :: rest ∧ c.utf8Size = 1 := by
  constructor
  · intro inside
    obtain ⟨after, found⟩ := Option.isSome_iff_exists.mp inside
    obtain ⟨before, parts, size⟩ := behind_eq_some.mp found
    cases back with
    | nil =>
      have total := congrArg byteLength parts
      rw [List.append_nil, byteLength_append] at total
      omega
    | cons c rest =>
      have boundary : IsBoundary (front ++ c :: rest) (byteLength front + 1) := ⟨before, after, parts, size⟩
      exact ⟨c, rest, rfl, isBoundary_succ.mp boundary⟩
  · rintro ⟨c, rest, rfl, narrow⟩
    have cut := behind_append (front ++ [c]) rest
    rw [InputLine.byteLength_concat, narrow, List.append_assoc] at cut
    exact Option.isSome_iff_exists.mpr ⟨_, cut⟩

/-- A cron line panics where its schedule ends at the cursor or in front of a wide character. -/
theorem isSome_cron (listing : Listing Error) (linePrefix word : List Char) :
    (cronCompletionCandidates listing linePrefix word).isSome ↔ NarrowBehindSchedule linePrefix := by
  rcases cronCommandStart_spec linePrefix with ⟨start, narrow⟩ | ⟨count, lead, found, long, parts, start⟩
  · rw [cronCompletionCandidates, start]
    exact iff_of_true rfl narrow
  · have narrow : NarrowBehindSchedule linePrefix ↔
        ∃ c rest, behindWords count linePrefix = c :: rest ∧ c.utf8Size = 1 := by
      constructor
      · intro all
        exact all count found long
      · rintro next count' found' -
        obtain rfl := Option.some.inj (found.symm.trans found')
        exact next
    rw [narrow, ← behind_succ lead, ← parts, cronCompletionCandidates, start, Option.bind_eq_bind, Option.bind_some]
    dsimp only
    cases cut : behind linePrefix (byteLength lead + 1) with
    | none => exact iff_of_false (by simp) (by simp)
    | some command => exact iff_of_true (isSome_shellSegment listing command word) rfl

theorem rdropWhile_line (above : List Char) {inside : List Char} (dark : ∀ c ∈ inside, c ≠ '\n') :
    (above ++ '\n' :: inside).rdropWhile (· ≠ '\n') = above ++ ['\n'] := by
  rw [← List.singleton_append, ← List.append_assoc]
  induction inside using List.reverseRecOn with
  | nil => rw [List.append_nil, List.rdropWhile_concat_neg _ _ _ (by simp)]
  | append_singleton inside c ih =>
    rw [← List.append_assoc, List.rdropWhile_concat_pos _ _ _ (by simpa using dark c (by simp)),
      ih fun d member => dark d (List.mem_append_left _ member)]

theorem range_linePrefix (front back : List Char) :
    range (front ++ back) (InputLine.lineStart front) (byteLength front) = some (front.rtakeWhile (· ≠ '\n')) := by
  have last : front.rdropWhile (· ≠ '\n') ++ front.rtakeWhile (· ≠ '\n') = front :=
    List.rdropWhile_append_rtakeWhile ..
  have start : InputLine.lineStart front = byteLength (front.rdropWhile (· ≠ '\n')) := by
    rw [InputLine.lineStart]
    cases found : rfind (· == '\n') front with
    | none =>
      have clean : front.rdropWhile (· ≠ '\n') = [] := by
        refine List.rdropWhile_eq_nil_iff.mpr fun c member => ?_
        simpa using rfind_eq_none found c member
      rw [clean]
      rfl
    | some index =>
      obtain ⟨above, c, inside, rfl, rfl, feed, dark⟩ := rfind_eq_some found
      obtain rfl : c = '\n' := eq_of_beq feed
      have cut := rdropWhile_line above fun d member => by simpa using dark d member
      rw [cut, InputLine.byteLength_concat]
      rfl
  nth_rewrite 1 [← last]
  nth_rewrite 4 [← last]
  rw [start, range_append]

/-- The completion of a command line or a shell line never panics, that of a cron line only behind its
schedule. -/
theorem isSome_completionCandidates (listing : Listing Error) (sound : scope.Sound) :
    (completionCandidates listing scope).isSome ↔
      (scope.mode = .cron → (trimStart scope.linePrefix).head? ≠ some ':' →
        NarrowBehindSchedule scope.linePrefix) := by
  obtain ⟨front, back, content, size⟩ := sound.cursor
  obtain ⟨before, after, parts, stop⟩ := sound.stop
  obtain ⟨lead, rest, parts', start⟩ := sound.start
  obtain ⟨word, whole⟩ : ∃ word, range scope.content scope.wordRange.1 scope.wordRange.2 = some word := by
    have ordered := sound.ordered
    have inside : lead <+: before := by
      refine List.prefix_of_prefix_length_le ⟨rest, parts'.symm⟩ ⟨after, parts.symm⟩ ?_
      by_contra longer
      have front : before <+: lead :=
        List.prefix_of_prefix_length_le ⟨after, parts.symm⟩ ⟨rest, parts'.symm⟩ (by omega)
      obtain ⟨more, rfl⟩ := front
      rw [byteLength_append] at start
      cases more with
      | nil => simp at longer
      | cons c more =>
        have positive := c.utf8Size_pos
        rw [byteLength_cons] at start
        omega
    obtain ⟨word, rfl⟩ := inside
    exact ⟨word, by rw [← start, ← stop, parts, range_append]⟩
  have line : scope.linePrefix = front.rtakeWhile (· ≠ '\n') := by
    rw [CompletionScope.linePrefix, ← size, content, upTo_append]
    rfl
  rw [completionCandidates, ← size, whole, content, upTo_append]
  simp only [Option.bind_eq_bind, Option.bind_some, range_linePrefix, ← line]
  split_ifs with command
  · cases scope.mode with
    | job => exact iff_of_true (isSome_shellSegment listing _ word) (by simp)
    | cron => exact (isSome_cron listing _ word).trans ⟨fun narrow _ _ => narrow, fun all => all rfl command⟩
  · exact iff_of_true rfl fun _ other => absurd other command

end Candidates

section Replacement

/-- The loop takes the front of a text that an item has too. -/
theorem truncate_sharedLen (text item : List Char) : ∃ shared,
    truncate text (sharedLen text item) = some shared ∧ shared <+: text ∧ shared <+: item := by
  have split : ∃ shared rest, text = shared ++ rest ∧ shared <+: item ∧ sharedLen text item = byteLength shared := by
    induction text generalizing item with
    | nil => exact ⟨[], [], rfl, List.nil_prefix, rfl⟩
    | cons c text ih =>
      cases item with
      | nil => exact ⟨[], c :: text, rfl, List.nil_prefix, rfl⟩
      | cons d item =>
        rw [sharedLen, List.zip_cons_cons]
        by_cases same : c = d
        · subst same
          obtain ⟨shared, rest, rfl, inside, size⟩ := ih item
          refine ⟨c :: shared, rest, rfl, by simpa using inside, ?_⟩
          rw [List.takeWhile_cons_of_pos (by simp), List.map_cons, List.sum_cons, byteLength_cons, ← size]
          rfl
        · refine ⟨[], c :: text, rfl, List.nil_prefix, ?_⟩
          rw [List.takeWhile_cons_of_neg (by simpa using same)]
          rfl
  obtain ⟨shared, rest, rfl, inside, size⟩ := split
  refine ⟨shared, ?_, List.prefix_append .., inside⟩
  rw [truncate, size, if_pos (by rw [byteLength_append]; exact Nat.le_add_right ..), upTo_append]

theorem sharedWith_spec (front : List Char) (items : List (List Char)) : ∃ shared,
    sharedWith front items = some shared ∧ shared <+: front ∧ ∀ item ∈ items, shared <+: item := by
  induction items generalizing front with
  | nil => exact ⟨front, rfl, List.prefix_rfl, by simp⟩
  | cons item items ih =>
    obtain ⟨next, cut, inside, inside'⟩ := truncate_sharedLen front item
    rw [sharedWith, cut, Option.bind_eq_bind, Option.bind_some]
    split_ifs with empty
    · exact ⟨[], rfl, List.nil_prefix, fun _ _ => List.nil_prefix⟩
    · obtain ⟨shared, run, below, all⟩ := ih next
      refine ⟨shared, run, below.trans inside, List.forall_mem_cons.mpr ⟨below.trans inside', all⟩⟩

/-- A replacement for several candidates is a front of all of them that is longer than the word. -/
theorem completionReplacement_spec (candidates : List (List Char)) (word : List Char)
    (several : 2 ≤ candidates.length) : ∃ result, completionReplacement candidates word = some result ∧
      ∀ shared, result = some shared →
        (∀ candidate ∈ candidates, shared <+: candidate) ∧ byteLength word < byteLength shared := by
  match candidates with
  | [] => simp at several
  | [candidate] => simp at several
  | first :: second :: others =>
    obtain ⟨shared, run, below, all⟩ := sharedWith_spec first (second :: others)
    refine ⟨if byteLength word < byteLength shared then some shared else none, ?_, fun result same => ?_⟩
    · change (sharedWith first (second :: others)).bind _ = _
      rw [run]
      rfl
    · obtain ⟨longer, same⟩ := Option.ite_none_right_eq_some.mp same
      obtain rfl := Option.some.inj same
      exact ⟨List.forall_mem_cons.mpr ⟨below, all⟩, longer⟩

end Replacement

/-- A completion panics exactly on a cron line whose schedule is complete and not followed by a character
of one byte; a replacement for several candidates is a front of all of them, longer than the word. -/
theorem completion_safety (listing : Listing Error) (scope : CompletionScope) (sound : scope.Sound) :
    ((completionCandidates listing scope).isSome ↔
      (scope.mode = .cron → (trimStart scope.linePrefix).head? ≠ some ':' →
        NarrowBehindSchedule scope.linePrefix)) ∧
    ∀ candidates word, 2 ≤ candidates.length → ∃ result, completionReplacement candidates word = some result ∧
      ∀ shared, result = some shared →
        (∀ candidate ∈ candidates, shared <+: candidate) ∧ byteLength word < byteLength shared :=
  ⟨isSome_completionCandidates listing sound, completionReplacement_spec⟩

/-- A listing without entries and programs. -/
def emptyListing : Listing Unit where
  entries _ := .ok []
  commands _ := []

theorem words_daily (rest : List Char) (stops : ∀ c ∈ rest.head?, isWhiteSpace c = true) :
    splitWhitespace ("daily".toList ++ rest) = "daily".toList :: splitWhitespace rest :=
  splitWhitespace_append ⟨by decide, fun c member => by
    have dark : "daily".toList.all (!isWhiteSpace ·) = true := by decide
    simpa using List.all_eq_true.mp dark c member⟩ stops

/-- A schedule directly in front of the cursor has nothing behind it. -/
theorem daily_panics :
    completionCandidates emptyListing ⟨.cron, "daily".toList, 5, (0, 5), [], []⟩ = none := by
  have words := words_daily [] (by simp)
  rw [List.append_nil] at words
  have sound : CompletionScope.Sound ⟨.cron, "daily".toList, 5, (0, 5), [], []⟩ :=
    ⟨⟨"daily".toList, [], by decide, by decide⟩, by decide, ⟨[], "daily".toList, by decide, by decide⟩,
      ⟨"daily".toList, [], by decide, by decide⟩⟩
  rw [← Option.not_isSome_iff_eq_none, isSome_completionCandidates emptyListing sound]
  intro narrow
  obtain ⟨c, rest, behind, -⟩ := narrow rfl (by decide) 1
    (by change startAfter (splitWhitespace "daily".toList) = _; rw [words]; rfl)
    (by change 1 ≤ (splitWhitespace "daily".toList).length; rw [words]; exact Nat.succ_pos _)
  cases behind

theorem completion_safety_daily :
    (completionCandidates emptyListing ⟨.cron, "daily l".toList, 7, (6, 7), [], []⟩).isSome ∧
      ∃ result, completionReplacement ["list".toList, "listen".toList] "l".toList = some result ∧
        ∀ shared, result = some shared →
          (∀ candidate ∈ ["list".toList, "listen".toList], shared <+: candidate) ∧
            byteLength "l".toList < byteLength shared := by
  have words := words_daily " l".toList fun c head => by
    obtain rfl : ' ' = c := Option.some.inj head
    rfl
  have sound : CompletionScope.Sound ⟨.cron, "daily l".toList, 7, (6, 7), [], []⟩ :=
    ⟨⟨"daily l".toList, [], by decide, by decide⟩, by decide, ⟨"daily ".toList, "l".toList, by decide, by decide⟩,
      ⟨"daily l".toList, [], by decide, by decide⟩⟩
  obtain ⟨candidates, replaces⟩ := completion_safety emptyListing _ sound
  refine ⟨candidates.mpr fun _ _ count found _ => ?_, replaces _ _ (by decide)⟩
  obtain rfl : 1 = count := by
    change startAfter (splitWhitespace ("daily".toList ++ " l".toList)) = _ at found
    rw [words] at found
    exact Option.some.inj found
  exact ⟨' ', ['l'], rfl, rfl⟩

end CueShell.Completion
