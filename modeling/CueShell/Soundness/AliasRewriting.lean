import CueShell.Model.Aliases
import Mathlib.Data.List.Sort

/-! # Alias rewriting

A line whose first words are the key of an alias gets the value in their place, and the longest key
wins. A key without words is found in every line and makes the rewriting panic.
-/

namespace CueShell

open Text

section Words

variable {text word rest lead : List Char}

theorem splitWhitespace_white {c : Char} (white : isWhiteSpace c = true) (rest : List Char) :
    splitWhitespace (c :: rest) = splitWhitespace rest := by
  have cut : ([] ++ c :: rest).splitOnP isWhiteSpace = [] :: rest.splitOnP isWhiteSpace :=
    List.splitOnP_append_cons_of_forall_mem (by simp) c white rest
  rw [splitWhitespace, ← List.nil_append (c :: rest), cut]
  rfl

/-- A word that white space or the end follows is taken off. -/
theorem splitWhitespace_append (clean : IsWord word) (stops : ∀ c ∈ rest.head?, isWhiteSpace c = true) :
    splitWhitespace (word ++ rest) = word :: splitWhitespace rest := by
  cases rest with
  | nil =>
    rw [List.append_nil, splitWhitespace_word clean]
    rfl
  | cons c rest =>
    have white := stops c rfl
    rw [splitWhitespace_white white, splitWhitespace, List.splitOnP_append_cons_of_forall_mem clean.2 c white]
    simp [splitWhitespace, clean.1]

end Words

section Spans

/-- The text is cut behind its first words. -/
structure CutBehind (text : List Char) (count : ℕ) (lead rest : List Char) : Prop where
  parts : text = lead ++ rest
  words : splitWhitespace lead = (splitWhitespace text).take count
  last : ∀ c ∈ lead.getLast?, isWhiteSpace c = false
  next : ∀ c ∈ rest.head?, isWhiteSpace c = true

variable {input front text lead rest : List Char} {count pos k start stop : ℕ}

/-- One more word in front. -/
theorem CutBehind.cons {word : List Char} (clean : IsWord word) (head : ∀ c ∈ text.head?, isWhiteSpace c = true)
    (cut : CutBehind text count lead rest) : CutBehind (word ++ text) (count + 1) (word ++ lead) rest := by
  have front : ∀ c ∈ lead.head?, isWhiteSpace c = true := by
    intro c first
    obtain ⟨tail, rfl⟩ := List.head?_eq_some_iff.mp first
    exact head c (by rw [cut.parts]; rfl)
  refine ⟨by rw [cut.parts, List.append_assoc], ?_, fun c last => ?_, cut.next⟩
  · rw [splitWhitespace_append clean front, cut.words, splitWhitespace_append clean head, List.take_succ_cons]
  · rcases List.eq_nil_or_concat lead with rfl | ⟨init, d, rfl⟩
    · rw [List.append_nil] at last
      exact clean.2 c (List.mem_of_getLast? last)
    · refine cut.last c ?_
      rw [List.concat_eq_append, ← List.append_assoc, List.getLast?_concat] at last
      rwa [List.concat_eq_append, List.getLast?_concat]

/-- One more blank in front. -/
theorem CutBehind.blank {c : Char} (white : isWhiteSpace c = true) (cut : CutBehind text (count + 1) lead rest)
    (nonempty : lead ≠ []) : CutBehind (c :: text) (count + 1) (c :: lead) rest := by
  refine ⟨by rw [cut.parts, List.cons_append], ?_, fun d last => cut.last d ?_, cut.next⟩
  · rw [splitWhitespace_white white, splitWhitespace_white white, cut.words]
  · obtain ⟨e, others, rfl⟩ := List.exists_cons_of_ne_nil nonempty
    rwa [List.getLast?_cons_cons] at last

/-- The spans delimit the words, and the text may be cut at the end of each. -/
theorem tokenSpansFrom_spec (split : input = front ++ text) (here : pos = byteLength front) :
    (tokenSpansFrom pos text).mapM (fun (start, stop) => range input start stop) = some (splitWhitespace text) ∧
      ∀ k start stop, (tokenSpansFrom pos text)[k]? = some (start, stop) →
        ∃ lead rest, lead ≠ [] ∧ CutBehind text (k + 1) lead rest ∧ stop = byteLength (front ++ lead) := by
  fun_induction tokenSpansFrom pos text generalizing front with
  | case1 pos => exact ⟨rfl, fun k start stop found => by simp at found⟩
  | case2 pos c rest white ih =>
    obtain ⟨words, cuts⟩ := @ih (front ++ [c]) (by rw [split, List.append_assoc]; rfl)
      (by rw [here, byteLength_append, byteLength_cons, byteLength_nil, Nat.add_zero])
    refine ⟨by rw [words, splitWhitespace_white white], fun k start stop found => ?_⟩
    obtain ⟨lead, after, nonempty, cut, same⟩ := cuts k start stop found
    refine ⟨c :: lead, after, List.cons_ne_nil _ _, cut.blank white nonempty, ?_⟩
    rw [same, List.append_assoc]
    rfl
  | case3 pos c rest dark stop =>
    rename_i ih
    have clean : IsWord (c :: rest.takeWhile (!isWhiteSpace ·)) := by
      refine ⟨List.cons_ne_nil _ _, List.forall_mem_cons.mpr ⟨by simpa using dark, fun d member => ?_⟩⟩
      exact not_of_mem_takeWhile member
    have parts : c :: rest = (c :: rest.takeWhile (!isWhiteSpace ·)) ++ rest.dropWhile (!isWhiteSpace ·) := by
      rw [List.cons_append, List.takeWhile_append_dropWhile]
    have stops : ∀ d ∈ (rest.dropWhile (!isWhiteSpace ·)).head?, isWhiteSpace d = true := by
      intro d first
      have other := List.head?_dropWhile_not (!isWhiteSpace ·) rest
      rw [Option.mem_def.mp first] at other
      simpa using other
    have size : stop = byteLength (front ++ (c :: rest.takeWhile (!isWhiteSpace ·))) := by
      rw [byteLength_append, byteLength_cons, ← here, ← Nat.add_assoc]
    have whole : splitWhitespace (c :: rest) =
        (c :: rest.takeWhile (!isWhiteSpace ·)) :: splitWhitespace (rest.dropWhile (!isWhiteSpace ·)) := by
      rw [← splitWhitespace_append clean stops, ← parts]
    obtain ⟨words, cuts⟩ := ih (by rw [split, List.append_assoc, ← parts]) size
    generalize c :: rest.takeWhile (!isWhiteSpace ·) = word at *
    generalize rest.dropWhile (!isWhiteSpace ·) = after at *
    refine ⟨?_, fun k start stop found => ?_⟩
    · have first : range input pos (byteLength (front ++ word)) = some word := by
        rw [split, parts, here, ← List.append_assoc]
        exact range_append front word after
      rw [List.mapM_cons, whole, words, size]
      dsimp only
      rw [first]
      rfl
    · rw [parts]
      cases k with
      | zero =>
        rw [List.getElem?_cons_zero] at found
        obtain ⟨-, rfl⟩ := Prod.mk.inj (Option.some.inj found)
        refine ⟨word, after, clean.1, ⟨rfl, ?_, fun d last => clean.2 d (List.mem_of_getLast? last), stops⟩, size⟩
        rw [splitWhitespace_word clean, splitWhitespace_append clean stops]
        rfl
      | succ k =>
        rw [List.getElem?_cons_succ] at found
        obtain ⟨lead, behind, nonempty, cut, same⟩ := cuts k start stop found
        refine ⟨word ++ lead, behind, by simp [nonempty], cut.cons clean stops, ?_⟩
        rw [same, List.append_assoc]

theorem mapM_take {spans : List (ℕ × ℕ)} {words : List (List Char)} {slice : ℕ × ℕ → Option (List Char)}
    (sliced : spans.mapM slice = some words) (count : ℕ) :
    (spans.take count).mapM slice = some (words.take count) ∧ spans.length = words.length := by
  induction spans generalizing words count with
  | nil =>
    obtain rfl : [] = words := Option.some.inj sliced
    exact ⟨by simp, rfl⟩
  | cons span spans ih =>
    rw [List.mapM_cons] at sliced
    obtain ⟨word, first, sliced⟩ := Option.bind_eq_some_iff.mp sliced
    obtain ⟨others, later, done⟩ := Option.bind_eq_some_iff.mp sliced
    obtain rfl : word :: others = words := Option.some.inj done
    refine ⟨?_, by rw [List.length_cons, List.length_cons, (ih later 0).2]⟩
    cases count with
    | zero => rfl
    | succ count =>
      rw [List.take_succ_cons, List.mapM_cons, first, (ih later count).1]
      rfl

end Spans

section Entries

variable {input : List Char} {entry : AliasEntry} {entries : List AliasEntry}

/-- The words of the key are the first words of the input. -/
def AliasEntry.Heads (entry : AliasEntry) (input : List Char) : Prop := entry.words <+: splitWhitespace input

instance : Decidable (entry.Heads input) := inferInstanceAs (Decidable (_ <+: _))

theorem tokenSpans_spec (input : List Char) :
    (tokenSpans input).mapM (fun (start, stop) => range input start stop) = some (splitWhitespace input) ∧
      ∀ k start stop, (tokenSpans input)[k]? = some (start, stop) →
        ∃ lead rest, CutBehind input (k + 1) lead rest ∧ stop = byteLength lead := by
  obtain ⟨words, cuts⟩ := @tokenSpansFrom_spec input [] input 0 rfl rfl
  refine ⟨words, fun k start stop found => ?_⟩
  obtain ⟨lead, rest, -, cut, same⟩ := cuts k start stop found
  exact ⟨lead, rest, cut, same⟩

theorem length_tokenSpans (input : List Char) : (tokenSpans input).length = (splitWhitespace input).length :=
  (mapM_take (tokenSpans_spec input).1 0).2

theorem AliasEntry.matchesInput_eq (entry : AliasEntry) (input : List Char) :
    entry.matchesInput input (tokenSpans input) = some (decide (entry.Heads input)) := by
  rw [matchesInput, (mapM_take (tokenSpans_spec input).1 _).1]
  refine congrArg some ?_
  rw [Bool.eq_iff_iff, beq_iff_eq, decide_eq_true_iff, Heads, List.prefix_iff_eq_take]
  exact eq_comm

/-- Behind the words of a key the rest of the input is taken over. -/
theorem AliasEntry.Heads.suffix (heads : entry.Heads input) (nonempty : entry.words ≠ []) :
    ∃ lead rest, CutBehind input entry.words.length lead rest ∧
      entry.suffix input (tokenSpans input) = some rest := by
  have positive := List.length_pos_of_ne_nil nonempty
  obtain ⟨⟨start, stop⟩, here⟩ : ∃ span, (tokenSpans input)[entry.words.length - 1]? = some span := by
    have bound := heads.length_le
    refine ⟨_, List.getElem?_eq_getElem ?_⟩
    rw [length_tokenSpans]
    omega
  obtain ⟨lead, rest, cut, rfl⟩ := (tokenSpans_spec input).2 _ _ _ here
  rw [Nat.sub_add_cancel positive] at cut
  refine ⟨lead, rest, cut, ?_⟩
  rw [AliasEntry.suffix, if_neg positive.ne', here]
  change behind input (byteLength lead) = some rest
  rw [cut.parts]
  exact behind_append lead rest

/-- The first entry whose words head the input decides. -/
theorem applyEntries_find (entries : List AliasEntry) (input : List Char) :
    match entries.find? fun entry => decide (entry.Heads input) with
    | none => applyEntries input (tokenSpans input) entries = some input
    | some entry =>
        if entry.words = [] then applyEntries input (tokenSpans input) entries = none
        else ∃ lead rest, CutBehind input entry.words.length lead rest ∧
          applyEntries input (tokenSpans input) entries = some (entry.value.toList ++ rest) := by
  induction entries with
  | nil => rfl
  | cons entry entries ih =>
    rw [applyEntries, length_tokenSpans, entry.matchesInput_eq, List.find?_cons]
    by_cases heads : entry.Heads input
    · have fits := heads.length_le
      rw [decide_eq_true heads, if_neg (Nat.not_lt.mpr fits)]
      dsimp only
      split_ifs with none
      · change (entry.suffix input (tokenSpans input)).bind _ = _
        rw [AliasEntry.suffix, none]
        rfl
      · obtain ⟨lead, rest, cut, taken⟩ := heads.suffix none
        refine ⟨lead, rest, cut, ?_⟩
        change (entry.suffix input (tokenSpans input)).bind _ = _
        rw [taken]
        rfl
    · rw [decide_eq_false heads]
      have skipped : (if (splitWhitespace input).length < entry.words.length then
          applyEntries input (tokenSpans input) entries
        else (some false).bind fun found => if found then (entry.suffix input (tokenSpans input)).bind
          fun suffix => some (entry.value.toList ++ suffix) else applyEntries input (tokenSpans input) entries) =
          applyEntries input (tokenSpans input) entries := by
        split_ifs <;> rfl
      exact skipped.symm ▸ ih

end Entries

section Table

variable {table : List (String × String)} {input : String}

/-- The entries of a loaded table. -/
def tableEntries (table : List (String × String)) : List AliasEntry :=
  table.map fun (key, value) => ⟨key, value⟩

/-- The line is rewritten by a longest key whose words are its first ones, and kept if there is none. -/
def Rewritten (table : List (String × String)) (input : String) : Prop :=
  ∃ output, (AliasConfig.deserialize table).apply input = some output ∧
    ((∃ entry ∈ tableEntries table, entry.Heads input.toList) →
      ∃ entry ∈ tableEntries table, entry.Heads input.toList ∧
        (∀ other ∈ tableEntries table, other.Heads input.toList → other.words.length ≤ entry.words.length) ∧
        ∃ lead rest, CutBehind input.toList entry.words.length lead rest ∧
          output.toList = entry.value.toList ++ rest) ∧
    ((¬ ∃ entry ∈ tableEntries table, entry.Heads input.toList) → output = input)

theorem mem_deserialize {entry : AliasEntry} :
    entry ∈ (AliasConfig.deserialize table).entries ↔ entry ∈ tableEntries table := List.mem_mergeSort

theorem deserialize_sorted (table : List (String × String)) :
    (AliasConfig.deserialize table).entries.Pairwise fun first second =>
      second.words.length ≤ first.words.length := by
  have sorted : (AliasConfig.deserialize table).entries.Pairwise fun first second =>
      decide (second.words.length ≤ first.words.length) = true :=
    List.pairwise_mergeSort (fun first second third => by simp; omega) (fun first second => by simp; omega) _
  exact sorted.imp of_decide_eq_true

/-- Of the entries that head the input the first one is a longest. -/
theorem longest_of_find {entry : AliasEntry} {entries : List AliasEntry} {input : List Char}
    (sorted : entries.Pairwise fun first second => second.words.length ≤ first.words.length)
    (found : entries.find? (fun entry => decide (entry.Heads input)) = some entry) :
    ∀ other ∈ entries, other.Heads input → other.words.length ≤ entry.words.length := by
  induction entries with
  | nil => simp at found
  | cons first entries ih =>
    obtain ⟨below, sorted⟩ := List.pairwise_cons.mp sorted
    rw [List.find?_cons] at found
    split at found
    · obtain rfl := Option.some.inj found
      exact List.forall_mem_cons.mpr ⟨fun _ => Nat.le_refl _, fun other member _ => below other member⟩
    · next missed =>
      refine List.forall_mem_cons.mpr ⟨fun heads => ?_, ih sorted found⟩
      exact absurd heads (of_decide_eq_false missed)

theorem apply_of_entries (bare : input.toList.head? ≠ some ':') :
    (AliasConfig.deserialize table).apply input =
      (applyEntries input.toList (tokenSpans input.toList) (AliasConfig.deserialize table).entries).map
        String.ofList := by
  rw [AliasConfig.apply]
  by_cases none : (AliasConfig.deserialize table).entries = []
  · rw [if_pos (.inl none), none, applyEntries, Option.map_some, String.ofList_toList]
  · rw [if_neg (not_or.mpr ⟨none, bare⟩)]

/-- A line that is no command is rewritten as it should unless the keys that head it are all blank. -/
theorem rewritten_iff (table : List (String × String)) (input : String) (bare : input.toList.head? ≠ some ':') :
    Rewritten table input ↔
      (∀ entry ∈ tableEntries table, entry.words ≠ []) ∨
        ∃ entry ∈ tableEntries table, entry.words ≠ [] ∧ entry.Heads input.toList := by
  have outcome := applyEntries_find (AliasConfig.deserialize table).entries input.toList
  have applied := @apply_of_entries table input bare
  cases found : (AliasConfig.deserialize table).entries.find? fun entry => decide (entry.Heads input.toList) with
  | none =>
    rw [found] at outcome
    have missed : ∀ entry ∈ tableEntries table, ¬ entry.Heads input.toList := by
      intro entry member
      simpa using List.find?_eq_none.mp found entry (mem_deserialize.mpr member)
    rw [outcome, Option.map_some, String.ofList_toList] at applied
    constructor
    · intro _
      refine .inl fun entry member none => missed entry member ?_
      rw [AliasEntry.Heads, none]
      exact List.nil_prefix
    · rintro -
      refine ⟨input, applied, fun ⟨entry, member, heads⟩ => absurd heads (missed entry member), fun _ => rfl⟩
  | some entry =>
    rw [found] at outcome
    have member := mem_deserialize.mp (List.mem_of_find?_eq_some found)
    have heads : entry.Heads input.toList := by simpa using List.find?_some found
    have longest := longest_of_find (deserialize_sorted table) found
    dsimp only at outcome
    split_ifs at outcome with none
    · rw [outcome, Option.map_none] at applied
      constructor
      · rintro ⟨output, same, -⟩
        rw [applied] at same
        cases same
      · rintro (words | ⟨other, inside, words, heads'⟩)
        · exact absurd none (words entry member)
        · have short := longest other (mem_deserialize.mpr inside) heads'
          rw [none] at short
          exact absurd (List.eq_nil_of_length_eq_zero (Nat.le_zero.mp short)) words
    · obtain ⟨lead, rest, cut, same⟩ := outcome
      rw [same, Option.map_some] at applied
      refine iff_of_true ⟨_, applied, fun _ => ?_, fun none => absurd ⟨entry, member, heads⟩ none⟩
        (.inr ⟨entry, member, none, heads⟩)
      exact ⟨entry, member, heads, fun other inside => longest other (mem_deserialize.mpr inside), lead, rest, cut,
        String.toList_ofList⟩

theorem rewritten_git_status : Rewritten [("", "x"), ("git status", "gs")] "git  status -s" := by
  have bare : "git  status -s".toList.head? ≠ some ':' := by decide
  refine (rewritten_iff [("", "x"), ("git status", "gs")] _ bare).mpr (.inr ⟨⟨"git status", "gs"⟩, ?_, ?_, ?_⟩)
  · simp [tableEntries]
  · decide
  · decide

/-- A blank key panics on every line that no other key heads. -/
theorem blank_key_panics : ¬ ∀ (table : List (String × String)) (input : String),
    input.toList.head? ≠ some ':' → Rewritten table input := by
  intro all
  have bare : "ls".toList.head? ≠ some ':' := by decide
  obtain ⟨output, applied, -⟩ := all [("", "x")] "ls" bare
  have outcome := applyEntries_find (AliasConfig.deserialize [("", "x")]).entries "ls".toList
  have entries : (AliasConfig.deserialize [("", "x")]).entries = [⟨"", "x"⟩] := List.mergeSort_singleton _
  have heads : (⟨"", "x"⟩ : AliasEntry).Heads "ls".toList := by decide
  rw [entries, List.find?_cons, decide_eq_true heads] at outcome
  rw [apply_of_entries bare, entries, outcome] at applied
  cases applied

end Table

end CueShell
