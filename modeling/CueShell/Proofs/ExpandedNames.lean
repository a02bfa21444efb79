import CueShell.Proofs.PathNames
import CueShell.Proofs.WordPieces

/-! # The base name of an expanded word

A word keeps its base name under every snapshot when a slash and a name stand behind everything in it
that expansion changes. Otherwise the last step of its path has such a piece in it, and long values
for the variables change the length of that step.
-/

namespace CueShell

variable {snapshot : Option EnvSnapshot} {word rest : List Char}

/-- A word whose tilde stands for the home directory. -/
def Tilded (word : List Char) : Prop := word = ['~'] ∨ ['~', '/'] <+: word

/-- A slash and a name stand at the end, behind everything that is not text. -/
def EndsInName (pieces : List WordPiece) : Prop :=
  ∃ front back before rest, pieces = front ++ back ∧ AllText back ∧
    rawText back = before ++ '/' :: rest ∧ (pathName rest).isSome

/-- The base name does not depend on the snapshot. -/
def KeepsBase (program : List Char) : Prop :=
  ¬ Tilded program ∧ AllText (wordPieces program) ∨ EndsInName (wordPieces program)

section Tilde

theorem expandTilde_of_not_tilded (tilde : ¬ Tilded word) : expandTilde snapshot word = word := by
  rw [expandTilde]
  cases lookupEnv snapshot "HOME" with
  | none => rfl
  | some home =>
    have alone : word ≠ ['~'] := fun equal => tilde (.inl equal)
    have path : ¬ ['~', '/'].isPrefixOf word := by
      rw [List.isPrefixOf_iff_prefix]
      exact fun lead => tilde (.inr lead)
    simp only [alone, if_false, Text.stripPrefix, path, Bool.false_eq_true]

theorem expandTilde_unset (unset : lookupEnv snapshot "HOME" = none) : expandTilde snapshot word = word := by
  rw [expandTilde, unset]

theorem expandTilde_path {home : String} (set : lookupEnv snapshot "HOME" = some home) (rest : List Char) :
    expandTilde snapshot ('~' :: '/' :: rest) = pathJoin home.toList rest := by
  rw [expandTilde, set]
  simp [Text.stripPrefix]

theorem expandTilde_alone {home : String} (set : lookupEnv snapshot "HOME" = some home) :
    expandTilde snapshot ['~'] = home.toList := by
  rw [expandTilde, set]
  simp

/-- A path behind a tilde ends up behind a slash, or it stands alone. -/
theorem expandTilde_cases (snapshot : Option EnvSnapshot) (rest : List Char) :
    (∃ ahead, expandTilde snapshot ('~' :: '/' :: rest) = ahead ++ '/' :: rest) ∨
      expandTilde snapshot ('~' :: '/' :: rest) = rest := by
  cases set : lookupEnv snapshot "HOME" with
  | none => exact .inl ⟨['~'], expandTilde_unset set⟩
  | some home =>
    rw [expandTilde_path set, pathJoin]
    split
    · exact .inr rfl
    · split
      · exact .inl ⟨home.toList, rfl⟩
      · rename_i closed
        cases last : home.toList.getLast? with
        | none => exact .inr (by rw [List.getLast?_eq_none_iff.mp last]; rfl)
        | some sign =>
          have slash : sign = '/' := by simpa [last] using closed
          subst slash
          obtain ⟨front, total⟩ := List.getLast?_eq_some_iff.mp last
          exact .inl ⟨front, by rw [total, List.append_assoc]; rfl⟩

theorem wordPieces_tilde (rest : List Char) :
    wordPieces ('~' :: rest) = .text ['~'] :: wordPieces rest :=
  wordPieces_plain rest (by decide) (by decide)

theorem wordPieces_slash (rest : List Char) :
    wordPieces ('/' :: rest) = .text ['/'] :: wordPieces rest :=
  wordPieces_plain rest (by decide) (by decide)

end Tilde

section Keeps

theorem AllText.expandVars (text : AllText (wordPieces word)) : expandVars snapshot word = word := by
  rw [CueShell.expandVars, text.expand, rawText_wordPieces]

/-- A text ends in a name that is behind a slash or is all of it. -/
theorem pathBase_of_ends {text : List Char} (lead before : List Char)
    (named : (pathName rest).isSome) (ends : text = lead ++ (before ++ '/' :: rest)) : pathBase text = pathBase rest := by
  rw [ends, ← List.append_assoc]
  exact pathBase_slash _ named

/-- The path behind a tilde, expanded without a home in front of it. -/
theorem pathBase_alone (snapshot : Option EnvSnapshot) {front back : List WordPiece} {before : List Char} {path : List Char}
    (pieces : wordPieces ('/' :: path) = front ++ back) (text : AllText back)
    (raw : rawText back = before ++ '/' :: rest) (named : (pathName rest).isSome) :
    pathBase (expandVars snapshot path) = pathBase rest := by
  rw [wordPieces_slash] at pieces
  cases front with
  | cons first front =>
    obtain ⟨-, later⟩ := List.cons.inj pieces
    refine pathBase_of_ends (front.flatMap (WordPiece.expand snapshot)) before named ?_
    rw [expandVars, later, List.append_eq, List.flatMap_append, text.expand, raw]
  | nil =>
    rw [List.nil_append] at pieces
    have whole : '/' :: path = before ++ '/' :: rest := by
      rw [← raw, ← pieces]
      exact congrArg ('/' :: ·) (rawText_wordPieces path).symm
    have plain : expandVars snapshot path = path := by
      refine AllText.expandVars fun piece member => text piece ?_
      rw [← pieces]
      exact List.mem_cons_of_mem _ member
    rw [plain]
    cases before with
    | nil => rw [(List.cons.inj whole).2]
    | cons slash before => exact pathBase_of_ends [] before named (List.cons.inj whole).2

theorem KeepsBase.pathBase_eq (keeps : KeepsBase word) (snapshot : Option EnvSnapshot) :
    pathBase (expandVars snapshot (expandTilde snapshot word)) = pathBase word := by
  rcases keeps with ⟨tilde, text⟩ | ⟨front, back, before, rest, pieces, text, raw, named⟩
  · rw [expandTilde_of_not_tilded tilde, text.expandVars]
  · have whole : word = rawText front ++ (before ++ '/' :: rest) := by
      rw [← rawText_wordPieces word, pieces, rawText, List.flatMap_append, ← rawText, ← raw]
    rw [pathBase_of_ends _ _ named whole]
    by_cases tilde : Tilded word
    · rcases tilde with rfl | ⟨path, rfl⟩
      · -- A tilde alone has no slash.
        have slash : '/' ∈ ['~'] := by rw [whole]; simp
        simp at slash
      · -- The piece of the tilde is not part of what ends in the name.
        obtain ⟨front', back', before', behind, text', raw'⟩ : ∃ front' back' before',
            wordPieces ('/' :: path) = front' ++ back' ∧ AllText back' ∧
              rawText back' = before' ++ '/' :: rest := by
          rw [List.cons_append, List.singleton_append, wordPieces_tilde] at pieces
          cases front with
          | cons first front => exact ⟨front, back, before, (List.cons.inj pieces).2, text, raw⟩
          | nil =>
            rw [List.nil_append] at pieces
            subst pieces
            refine ⟨[], _, before.tail, rfl, fun piece member => text piece (List.mem_cons_of_mem _ member), ?_⟩
            rw [rawText, List.flatMap_cons] at raw
            cases before with
            | nil => exact absurd (List.cons.inj raw).1 (by decide)
            | cons sign before => exact (List.cons.inj raw).2
        rcases expandTilde_cases snapshot path with ⟨ahead, expanded⟩ | expanded
        · obtain ⟨lead, ends⟩ := expandVars_ends snapshot ahead rfl behind text'
          refine pathBase_of_ends lead before' named ?_
          rw [← raw', ← ends]
          exact congrArg (expandVars snapshot) expanded
        · have alone := pathBase_alone snapshot behind text' raw' named
          exact (congrArg (fun path => pathBase (expandVars snapshot path)) expanded).trans alone
    · rw [expandTilde_of_not_tilded tilde]
      refine pathBase_of_ends (front.flatMap (WordPiece.expand snapshot)) before named ?_
      rw [expandVars, pieces, List.flatMap_append, text.expand, raw]

end Keeps

section Drifts

variable {size gap : ℕ} {raw expanded chars : List Char}

/-- The last steps of a text and of its expansion, and they themselves, differ in length as much as long
values and the signs that fall away make them differ. -/
def Drifts (size gap : ℕ) (raw expanded : List Char) : Prop :=
  ∃ lead step lead' step', LastStep raw lead step ∧ LastStep expanded lead' step' ∧
    (size ≤ step'.length ∨ step'.length + gap ≤ step.length) ∧
    (size ≤ expanded.length ∨ expanded.length + gap ≤ raw.length)

theorem LastStep.append {path lead step : List Char} (cut : LastStep path lead step)
    (slash : '/' ∉ chars) : LastStep (path ++ chars) lead (step ++ chars) where
  whole := by rw [cut.whole, List.append_assoc]
  closed := cut.closed
  slash := by simp [cut.slash, slash]

theorem LastStep.slash_at_end {path before behind : List Char} (slash : '/' ∉ behind) :
    LastStep (path ++ (before ++ '/' :: behind)) (path ++ (before ++ ['/'])) behind where
  whole := by simp
  closed := .inr (by simp)
  slash := slash

theorem exists_last_slash (slash : '/' ∈ chars) :
    ∃ before behind, chars = before ++ '/' :: behind ∧ '/' ∉ behind := by
  obtain ⟨behind, before, total, clean⟩ := List.eq_append_cons_of_mem (List.mem_reverse.mpr slash)
  refine ⟨before.reverse, behind.reverse, ?_, by simpa using clean⟩
  rw [← List.reverse_reverse chars, total]
  simp

/-- The same text behind both. -/
theorem Drifts.text (drifts : Drifts size 0 raw expanded) (chars : List Char) :
    Drifts size 0 (raw ++ chars) (expanded ++ chars) := by
  obtain ⟨lead, step, lead', step', cut, cut', steps, wholes⟩ := drifts
  have wholes' : size ≤ (expanded ++ chars).length ∨
      (expanded ++ chars).length + 0 ≤ (raw ++ chars).length := by
    simp only [List.length_append]
    omega
  by_cases slash : '/' ∈ chars
  · obtain ⟨before, behind, rfl, clean⟩ := exists_last_slash slash
    exact ⟨_, behind, _, behind, .slash_at_end clean, .slash_at_end clean, .inr (Nat.le_refl _), wholes'⟩
  · refine ⟨lead, _, lead', _, cut.append slash, cut'.append slash, ?_, wholes'⟩
    simp only [List.length_append]
    omega

/-- What a piece stands for under long values. -/
structure Stretched (size : ℕ) (raw expanded : List Char) : Prop where
  raw_slash : '/' ∉ raw
  slash : '/' ∉ expanded
  raw_solid : ∃ c ∈ raw, c ≠ '.'
  solid : ∃ c ∈ expanded, c ≠ '.'
  length : size ≤ expanded.length ∨ expanded.length + 1 ≤ raw.length

/-- A stretched piece behind both changes the lengths, and both have a name now. -/
theorem Drifts.stretched {mark value : List Char} (drifts : Drifts size 0 raw expanded)
    (stretched : Stretched size mark value) :
    ∃ lead step lead' step', LastStep (raw ++ mark) lead step ∧
      LastStep (expanded ++ value) lead' step' ∧ (∃ c ∈ step, c ≠ '.') ∧ (∃ c ∈ step', c ≠ '.') ∧
      (size ≤ step'.length ∨ step'.length + 1 ≤ step.length) ∧
      (size ≤ (expanded ++ value).length ∨ (expanded ++ value).length + 1 ≤ (raw ++ mark).length) := by
  obtain ⟨lead, step, lead', step', cut, cut', steps, wholes⟩ := drifts
  have size := stretched.length
  obtain ⟨c, member, other⟩ := stretched.raw_solid
  obtain ⟨c', member', other'⟩ := stretched.solid
  refine ⟨lead, _, lead', _, cut.append stretched.raw_slash, cut'.append stretched.slash,
    ⟨c, List.mem_append_right _ member, other⟩, ⟨c', List.mem_append_right _ member', other'⟩, ?_, ?_⟩
  · simp only [List.length_append]
    omega
  · simp only [List.length_append]
    omega

/-- Long values for all variables that a list of pieces refers to. -/
def Long (snapshot : Option EnvSnapshot) (size : ℕ) (pieces : List WordPiece) : Prop :=
  ∀ name braced, .reference name braced ∈ pieces →
    lookupEnv snapshot (String.ofList name) = some (String.ofList (List.replicate size 'a'))

theorem WordPiece.stretched {piece : WordPiece} (marked : piece.Marked) (kind : piece.isText = false)
    (long : Long snapshot size [piece]) (positive : 0 < size) :
    Stretched size piece.raw (piece.expand snapshot) where
  raw_slash := marked.slash
  raw_solid := ⟨'$', marked.dollar, by decide⟩
  slash := by
    cases piece with
    | text chars => cases kind
    | escape => simp [WordPiece.expand]
    | reference name braced =>
      rw [WordPiece.expand, long name braced (List.mem_singleton.mpr rfl)]
      simp
  solid := by
    cases piece with
    | text chars => cases kind
    | escape => exact ⟨'$', by simp [WordPiece.expand], by decide⟩
    | reference name braced =>
      rw [WordPiece.expand, long name braced (List.mem_singleton.mpr rfl)]
      refine ⟨'a', ?_, by decide⟩
      simp only [Option.getD_some, String.toList_ofList]
      exact List.mem_replicate.mpr ⟨by omega, rfl⟩
  length := by
    cases piece with
    | text chars => cases kind
    | escape => exact .inr (by simp [WordPiece.expand, WordPiece.raw])
    | reference name braced =>
      rw [WordPiece.expand, long name braced (List.mem_singleton.mpr rfl)]
      exact .inl (by simp)

theorem Drifts.pieces (positive : 0 < size) (pieces : List WordPiece)
    (marked : ∀ piece ∈ pieces, piece.isText ∨ piece.Marked) (long : Long snapshot size pieces)
    (drifts : Drifts size 0 raw expanded) :
    Drifts size 0 (raw ++ rawText pieces) (expanded ++ pieces.flatMap (WordPiece.expand snapshot)) := by
  induction pieces generalizing raw expanded with
  | nil => simpa [rawText] using drifts
  | cons piece pieces ih =>
    have later : Drifts size 0 (raw ++ piece.raw) (expanded ++ piece.expand snapshot) := by
      cases kind : piece.isText with
      | true =>
        rw [WordPiece.expand_of_isText kind]
        exact drifts.text piece.raw
      | false =>
        have mark : piece.Marked := (marked piece List.mem_cons_self).resolve_left (by simp [kind])
        have single : Long snapshot size [piece] := fun name braced member =>
          long name braced (by rw [List.mem_singleton.mp member]; exact List.mem_cons_self)
        obtain ⟨lead, step, lead', step', cut, cut', -, -, steps, wholes⟩ :=
          drifts.stretched (WordPiece.stretched mark kind single positive)
        exact ⟨lead, step, lead', step', cut, cut', by omega, by omega⟩
    have rest := ih (fun piece member => marked piece (List.mem_cons_of_mem _ member))
      (fun name braced member => long name braced (List.mem_cons_of_mem _ member)) later
    simpa [rawText, List.append_assoc] using rest

/-- The last piece that is not text. -/
theorem exists_last_mark (pieces : List WordPiece) : AllText pieces ∨
    ∃ front mark back, pieces = front ++ mark :: back ∧ mark.isText = false ∧ AllText back := by
  induction pieces with
  | nil => exact .inl fun piece member => absurd member List.not_mem_nil
  | cons piece pieces ih =>
    rcases ih with text | ⟨front, mark, back, rfl, kind, text⟩
    · cases kind : piece.isText with
      | true =>
        refine .inl fun other member => ?_
        rcases List.mem_cons.mp member with rfl | later
        · exact kind
        · exact text other later
      | false => exact .inr ⟨[], piece, pieces, rfl, kind, text⟩
    · exact .inr ⟨piece :: front, mark, back, rfl, kind, text⟩

theorem nameless_of_not_endsInName {front back : List WordPiece} (ends : ¬ EndsInName (front ++ back))
    (text : AllText back) : Nameless (rawText back) := by
  intro before behind total
  cases named : pathName behind with
  | none => rfl
  | some name => exact absurd ⟨front, back, before, behind, rfl, text, total, by simp [named]⟩ ends

/-- Long values change the base of a text whose last piece that is not text has no name behind it. -/
theorem Drifts.base_ne {front back : List WordPiece} {mark : WordPiece} (positive : 0 < size)
    (drifts : Drifts size 0 raw expanded)
    (marked : ∀ piece ∈ front ++ mark :: back, piece.isText ∨ piece.Marked)
    (long : Long snapshot size (front ++ mark :: back)) (kind : mark.isText = false)
    (text : AllText back) (nameless : Nameless (rawText back))
    (short : (raw ++ rawText (front ++ mark :: back)).length < size) :
    pathBase (raw ++ rawText (front ++ mark :: back)) ≠
        pathBase (expanded ++ (front ++ mark :: back).flatMap (WordPiece.expand snapshot)) ∧
      expanded ++ (front ++ mark :: back).flatMap (WordPiece.expand snapshot) ≠ [] := by
  have leading := drifts.pieces positive front
    (fun piece member => marked piece (List.mem_append_left _ member))
    (fun name braced member => long name braced (List.mem_append_left _ member))
  have mark_marked : mark.Marked := (marked mark (by simp)).resolve_left (by simp [kind])
  have single : Long snapshot size [mark] := fun name braced member =>
    long name braced (by rw [List.mem_singleton.mp member]; simp)
  obtain ⟨lead, step, lead', step', cut, cut', solid, solid', steps, wholes⟩ :=
    leading.stretched (WordPiece.stretched mark_marked kind single positive)
  have whole : raw ++ rawText (front ++ mark :: back) =
      (raw ++ rawText front ++ mark.raw) ++ rawText back := by simp [rawText]
  have whole' : expanded ++ (front ++ mark :: back).flatMap (WordPiece.expand snapshot) =
      (expanded ++ front.flatMap (WordPiece.expand snapshot) ++ mark.expand snapshot) ++
        rawText back := by
    rw [List.flatMap_append, List.flatMap_cons, text.expand]
    simp
  have bound : (raw ++ rawText front ++ mark.raw).length < size := by
    rw [whole] at short
    simp only [List.length_append] at short ⊢
    omega
  have inner : step.length ≤ (raw ++ rawText front ++ mark.raw).length := by
    rw [cut.whole, List.length_append]
    omega
  rw [whole, whole']
  refine ⟨nameless.base_ne cut solid cut' solid' (by omega) (by omega), ?_⟩
  obtain ⟨c, member, -⟩ := solid'
  have there : c ∈ expanded ++ front.flatMap (WordPiece.expand snapshot) ++ mark.expand snapshot := by
    rw [cut'.whole]
    exact List.mem_append_right _ member
  exact List.ne_nil_of_mem (List.mem_append_left _ there)

end Drifts

section Changes

variable {size : ℕ}

/-- The value that stands for the home directory and for every variable. -/
abbrev longValue (size : ℕ) : String := String.ofList (List.replicate size 'a')

theorem expandVars_replicate (snapshot : Option EnvSnapshot) (size : ℕ) (rest : List Char) :
    expandVars snapshot (List.replicate size 'a' ++ rest) =
      List.replicate size 'a' ++ expandVars snapshot rest := by
  induction size with
  | zero => rfl
  | succ size ih =>
    rw [List.replicate_succ, List.cons_append, expandVars,
      wordPieces_plain _ (by decide) (by decide), List.flatMap_cons, ← expandVars, ih]
    rfl

theorem pathJoin_long (positive : 0 < size) {path : List Char} (relative : path.head? ≠ some '/') :
    pathJoin (List.replicate size 'a') path = List.replicate size 'a' ++ '/' :: path := by
  obtain ⟨count, rfl⟩ := Nat.exists_eq_succ_of_ne_zero (Nat.pos_iff_ne_zero.mp positive)
  rw [pathJoin, if_neg relative, if_pos]
  rw [List.getLast?_replicate]
  simp

theorem LastStep.start (slash : '/' ∉ word) : LastStep word [] word := ⟨rfl, .inl rfl, slash⟩

/-- A word that is text but for its tilde, and has no name behind it. -/
theorem tilde_base_ne (home : lookupEnv snapshot "HOME" = some (longValue size)) (large : 1 < size)
    (tilde : Tilded word) (text : AllText (wordPieces word)) (ends : ¬ EndsInName (wordPieces word)) :
    pathBase word ≠ pathBase (expandVars snapshot (expandTilde snapshot word)) ∧
      expandVars snapshot (expandTilde snapshot word) ≠ [] := by
  have positive : 0 < size := by omega
  have real : 'a' ∈ List.replicate size 'a' := List.mem_replicate.mpr ⟨by omega, rfl⟩
  have clean : '/' ∉ List.replicate size 'a' := by simp
  have steps : ['~'].length ≠ (List.replicate size 'a').length := by
    rw [List.length_replicate, List.length_singleton]
    omega
  rcases tilde with rfl | ⟨path, rfl⟩
  · have nameless : Nameless [] := fun before behind total => by simp at total
    have value : expandVars snapshot (List.replicate size 'a') = List.replicate size 'a' := by
      simpa [expandVars, wordPieces] using expandVars_replicate snapshot size []
    rw [expandTilde_alone home, String.toList_ofList, value]
    refine ⟨?_, List.ne_nil_of_mem real⟩
    have differ := nameless.base_ne (.start (by decide)) ⟨'~', by decide⟩ (.start clean)
      ⟨'a', real, by decide⟩ steps steps
    simpa using differ
  · rw [List.cons_append, List.singleton_append] at text ends ⊢
    have plain : AllText (wordPieces ('/' :: path)) := fun piece member =>
      text piece (by rw [wordPieces_tilde]; exact List.mem_cons_of_mem _ member)
    have nameless : Nameless ('/' :: path) := by
      rw [wordPieces_tilde, ← List.singleton_append] at ends
      have bare := nameless_of_not_endsInName ends plain
      rwa [rawText_wordPieces] at bare
    rw [expandTilde_path home, String.toList_ofList]
    by_cases absolute : path.head? = some '/'
    · -- The home directory is dropped.
      have same : expandVars snapshot path = path := AllText.expandVars fun piece member =>
        plain piece (by rw [wordPieces_slash]; exact List.mem_cons_of_mem _ member)
      rw [pathJoin, if_pos absolute, same]
      have real : path ≠ [] := by
        rintro rfl
        cases absolute
      refine ⟨?_, real⟩
      have unnamed := nameless [] path rfl
      have whole : pathBase path = path := by rw [pathBase, unnamed]; rfl
      rw [whole]
      have joined : lastPart ('~' :: '/' :: path) = (lastPart path).or (lastPart ['~']) :=
        lastPart_slash ['~'] path
      cases last : lastPart path with
      | none =>
        have single : lastPart ['~'] = some ['~'] := lastPart_single (by decide) ⟨'~', by decide⟩
        rw [last, single, Option.none_or] at joined
        rw [pathBase_of_lastPart joined (by decide)]
        rintro rfl
        cases absolute
      | some name =>
        have up : name = ['.', '.'] := by
          simp only [pathName, last] at unnamed
          simpa using unnamed
        rw [last, up, Option.some_or] at joined
        rw [pathBase_of_up joined]
        intro same
        have lengths := congrArg List.length same
        simp only [List.length_cons] at lengths
        omega
    · rw [pathJoin_long positive absolute, expandVars_replicate, plain.expandVars]
      refine ⟨?_, List.ne_nil_of_mem (List.mem_append_left _ real)⟩
      have cut : LastStep ['~'] [] ['~'] := .start (by decide)
      exact nameless.base_ne cut ⟨'~', by decide⟩ (.start clean) ⟨'a', real, by decide⟩ steps steps

/-- Long values change the base of a word that does not keep it, and leave something to spawn. -/
theorem base_ne_of_long (home : lookupEnv snapshot "HOME" = some (longValue size))
    (long : Long snapshot size (wordPieces word)) (large : 1 < size) (short : word.length < size)
    (changes : ¬ KeepsBase word) :
    pathBase word ≠ pathBase (expandVars snapshot (expandTilde snapshot word)) ∧
      expandVars snapshot (expandTilde snapshot word) ≠ [] := by
  have positive : 0 < size := by omega
  have ends : ¬ EndsInName (wordPieces word) := fun ends => changes (.inr ends)
  rcases exists_last_mark (wordPieces word) with text | ⟨front, mark, back, pieces, kind, text⟩
  · have tilde : Tilded word := by
      by_contra tilde
      exact changes (.inl ⟨tilde, text⟩)
    exact tilde_base_ne home large tilde text ends
  have marked : ∀ piece ∈ front ++ mark :: back, piece.isText ∨ piece.Marked := fun piece member =>
    marked_of_mem (pieces ▸ member)
  have nameless : Nameless (rawText back) := by
    rw [pieces, ← List.singleton_append, ← List.append_assoc] at ends
    exact nameless_of_not_endsInName ends text
  rw [pieces] at long
  have whole : word = rawText (front ++ mark :: back) := by rw [← pieces, rawText_wordPieces]
  by_cases tilde : Tilded word
  · obtain ⟨path, rfl, front, rfl⟩ : ∃ path, word = '~' :: '/' :: path ∧
        ∃ rest, front = .text ['~'] :: .text ['/'] :: rest := by
      rcases tilde with rfl | ⟨path, rfl⟩
      · rw [wordPieces_tilde] at pieces
        cases front with
        | nil =>
          obtain ⟨rfl, -⟩ := List.cons.inj pieces
          cases kind
        | cons first front => simp [wordPieces] at pieces
      · refine ⟨path, rfl, ?_⟩
        rw [List.cons_append, List.singleton_append, wordPieces_tilde, wordPieces_slash] at pieces
        cases front with
        | nil =>
          obtain ⟨rfl, -⟩ := List.cons.inj pieces
          cases kind
        | cons first front =>
          cases front with
          | nil =>
            obtain ⟨rfl, -⟩ := List.cons.inj (List.cons.inj pieces).2
            cases kind
          | cons second front =>
            obtain ⟨rfl, later⟩ := List.cons.inj pieces
            obtain ⟨rfl, -⟩ := List.cons.inj later
            exact ⟨front, rfl⟩
    have behind : wordPieces path = front ++ mark :: back := by
      rw [wordPieces_tilde, wordPieces_slash] at pieces
      exact (List.cons.inj (List.cons.inj pieces).2).2
    have path_raw : rawText (front ++ mark :: back) = path := by rw [← behind, rawText_wordPieces]
    -- Both texts have a slash in front of the rest, or the expansion is the rest.
    have changes : ∀ expanded, Drifts size 0 ['~', '/'] expanded →
        pathBase ('~' :: '/' :: path) ≠ pathBase (expanded ++ expandVars snapshot path) ∧
          expanded ++ expandVars snapshot path ≠ [] := by
      intro expanded drifts
      have differ := drifts.base_ne positive
        (fun piece member => marked piece (List.mem_cons_of_mem _ (List.mem_cons_of_mem _ member)))
        (fun name braced member =>
          long name braced (List.mem_cons_of_mem _ (List.mem_cons_of_mem _ member)))
        kind text nameless (by rw [path_raw]; exact short)
      rwa [path_raw, ← behind, ← expandVars] at differ
    have cut : LastStep ['~', '/'] ['~', '/'] [] := ⟨rfl, .inr rfl, by simp⟩
    rw [expandTilde_path home, String.toList_ofList]
    by_cases absolute : path.head? = some '/'
    · rw [pathJoin, if_pos absolute]
      exact changes [] ⟨_, [], [], [], cut, .start (by simp), .inr (Nat.le_refl _), .inr (by simp)⟩
    · have slash : expandVars snapshot ('/' :: path) = '/' :: expandVars snapshot path := by
        rw [expandVars, wordPieces_slash, List.flatMap_cons, ← expandVars]
        rfl
      have joined : List.replicate size 'a' ++ '/' :: expandVars snapshot path =
          (List.replicate size 'a' ++ ['/']) ++ expandVars snapshot path := by simp
      rw [pathJoin_long positive absolute, expandVars_replicate, slash, joined]
      exact changes _ ⟨_, [], _, [], cut, ⟨(List.append_nil _).symm, .inr (by simp), by simp⟩,
        .inr (Nat.le_refl _), .inl (by simp)⟩
  · have drifts : Drifts size 0 [] [] :=
      ⟨[], [], [], [], .start (by simp), .start (by simp), .inr (Nat.le_refl _), .inr (Nat.le_refl _)⟩
    have differ := drifts.base_ne positive marked long kind text nameless
      (by rwa [List.nil_append, ← whole])
    rw [List.nil_append, List.nil_append, ← whole, ← pieces, ← expandVars] at differ
    rwa [expandTilde_of_not_tilded tilde]

end Changes

end CueShell
