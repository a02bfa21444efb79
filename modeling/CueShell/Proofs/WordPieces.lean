import CueShell.Model.WordExpansion

/-! # The pieces of a word

Pieces stand for the text they were taken from, and only text holds a slash. A text that is put in front
of a word may change how the word is taken apart, but only up to the first brace that closes; the text
at its end stays what it is.
-/

namespace CueShell

variable {snapshot : Option EnvSnapshot} {ch : Char} {rest after word : List Char}
variable {piece : WordPiece} {front back : List WordPiece}

/-- What a piece looks like in the text. -/
def WordPiece.raw : WordPiece → List Char
  | .text chars => chars
  | .escape => ['\\', '$']
  | .reference name true => '$' :: '{' :: (name ++ ['}'])
  | .reference name false => '$' :: name

def WordPiece.isText : WordPiece → Bool
  | .text _ => true
  | _ => false

/-- The pieces as they look in the text. -/
abbrev rawText (pieces : List WordPiece) : List Char := pieces.flatMap WordPiece.raw

/-- All pieces stand for themselves. -/
def AllText (pieces : List WordPiece) : Prop := ∀ piece ∈ pieces, piece.isText

theorem WordPiece.expand_of_isText (text : piece.isText) : piece.expand snapshot = piece.raw := by
  cases piece with
  | text chars => rfl
  | escape => cases text
  | reference name braced => cases text

theorem AllText.expand (text : AllText back) :
    back.flatMap (WordPiece.expand snapshot) = rawText back :=
  List.flatMap_congr fun piece member => WordPiece.expand_of_isText (text piece member)

section Step

theorem PieceTaken.raw (taken : PieceTaken ch rest piece after) : piece.raw ++ after = ch :: rest := by
  cases taken <;> simp [WordPiece.raw]

theorem wordPieces_cons (ch : Char) (rest : List Char) : ∃ piece after,
    PieceTaken ch rest piece after ∧ wordPieces (ch :: rest) = piece :: wordPieces after := by
  refine ⟨_, _, nextPiece_taken ch rest, ?_⟩
  rw [wordPieces]

/-- Characters that start nothing. -/
theorem wordPieces_plain (rest : List Char) (slash : ch ≠ '\\') (dollar : ch ≠ '$') :
    wordPieces (ch :: rest) = .text [ch] :: wordPieces rest := by
  rw [wordPieces]
  simp [nextPiece, slash, dollar]

/-- Behind a slash nothing takes the slash away. -/
theorem expandVars_slash (snapshot : Option EnvSnapshot) (rest : List Char) :
    expandVars snapshot ('/' :: rest) = '/' :: expandVars snapshot rest := by
  rw [expandVars, wordPieces_plain rest (by decide) (by decide)]
  rfl

theorem rawText_wordPieces (word : List Char) : rawText (wordPieces word) = word := by
  induction word using wordPieces.induct with
  | case1 => simp [wordPieces]
  | case2 ch rest ih =>
    rw [wordPieces]
    exact (congrArg ((nextPiece ch rest).1.raw ++ ·) ih).trans (nextPiece_taken ch rest).raw

theorem not_isVarContinue_slash : isVarContinue '/' = false := by decide

theorem isVarContinue_of_start (start : isVarStart ch = true) : isVarContinue ch = true := by
  simp only [isVarStart, isVarContinue, Bool.or_eq_true, Char.isAlphanum] at start ⊢
  exact start.imp_right .inl

/-- The characters of a name are those a name goes on with. -/
theorem isVarContinue_of_valid {name : List Char} (valid : isValidVarName name = true) :
    ∀ c ∈ name, isVarContinue c = true := by
  cases name with
  | nil => simp
  | cons first rest =>
    simp only [isValidVarName, Bool.and_eq_true, List.all_eq_true] at valid
    intro c member
    rcases List.mem_cons.mp member with rfl | later
    · exact isVarContinue_of_start valid.1
    · exact valid.2 c later

/-- A piece that is no text has a dollar in it, and no slash. -/
structure WordPiece.Marked (piece : WordPiece) : Prop where
  slash : '/' ∉ piece.raw
  dollar : '$' ∈ piece.raw

theorem PieceTaken.marked (taken : PieceTaken ch rest piece after) :
    piece.isText ∨ piece.Marked := by
  cases taken with
  | escape => exact .inr ⟨by decide, by decide⟩
  | @braced name after inside valid =>
    refine .inr ⟨?_, by simp [WordPiece.raw]⟩
    have clean : '/' ∉ name := fun member => by
      have continues := isVarContinue_of_valid valid '/' member
      rw [not_isVarContinue_slash] at continues
      cases continues
    simp [WordPiece.raw, clean]
  | invalid => exact .inl rfl
  | unclosed => exact .inl rfl
  | @named first name after start continues stops =>
    refine .inr ⟨?_, by simp [WordPiece.raw]⟩
    have clean : '/' ∉ name := fun member => by
      have goes := continues '/' member
      rw [not_isVarContinue_slash] at goes
      cases goes
    have other : '/' ≠ first := by
      rintro rfl
      have goes := isVarContinue_of_start start
      rw [not_isVarContinue_slash] at goes
      cases goes
    simp [WordPiece.raw, clean, other]
  | plain => exact .inl rfl

theorem marked_of_mem (member : piece ∈ wordPieces word) : piece.isText ∨ piece.Marked := by
  induction word using wordPieces.induct with
  | case1 => simp [wordPieces] at member
  | case2 ch rest ih =>
    rw [wordPieces] at member
    rcases List.mem_cons.mp member with rfl | later
    · exact (nextPiece_taken ch rest).marked
    · exact ih later

end Step

section InFront

/-- What follows the same text up to the first of a sign is the same. -/
theorem cut_at_first {sign : Char} {first second left right : List Char} (clean : sign ∉ first)
    (clean' : sign ∉ second) (same : first ++ sign :: left = second ++ sign :: right) :
    first = second ∧ left = right := by
  induction first generalizing second with
  | nil =>
    cases second with
    | nil => exact ⟨rfl, (List.cons.inj same).2⟩
    | cons other rest => exact absurd (List.cons.inj same).1 (fun equal => clean' (by simp [equal]))
  | cons head tail ih =>
    cases second with
    | nil => exact absurd (List.cons.inj same).1 (fun equal => clean (by simp [equal]))
    | cons other rest =>
      obtain ⟨heads, tails⟩ := List.cons.inj same
      obtain ⟨same, behind⟩ := ih (fun member => clean (List.mem_cons_of_mem _ member))
        (fun member => clean' (List.mem_cons_of_mem _ member)) tails
      exact ⟨by rw [heads, same], behind⟩

theorem not_isVarContinue_brace : isVarContinue '}' = false := by decide

/-- The piece that is taken is the only one that can be taken. -/
theorem nextPiece_of_taken (taken : PieceTaken ch rest piece after) :
    nextPiece ch rest = (piece, after) := by
  cases taken with
  | escape rest => rfl
  | @braced name after inside valid =>
    rcases split_at_brace (name ++ '}' :: after) with ⟨name', after', same, inside', taken, dropped⟩ |
      ⟨outside, -⟩
    · obtain ⟨rfl, rfl⟩ := cut_at_first inside inside' same
      simp only [nextPiece, taken, dropped, valid]
      rfl
    · exact absurd (by simp) outside
  | @invalid name after inside invalid =>
    rcases split_at_brace (name ++ '}' :: after) with ⟨name', after', same, inside', taken, dropped⟩ |
      ⟨outside, -⟩
    · obtain ⟨rfl, rfl⟩ := cut_at_first inside inside' same
      simp only [nextPiece, taken, dropped, invalid]
      rfl
    · exact absurd (by simp) outside
  | @unclosed name inside =>
    rcases split_at_brace name with ⟨name', after', rfl, -⟩ | ⟨-, taken, dropped⟩
    · exact absurd (by simp) inside
    · simp only [nextPiece, taken, dropped]
      rfl
  | @named first name after start continues stops =>
    have other : first ≠ '{' := by
      rintro rfl
      rw [not_isVarStart_brace] at start
      cases start
    have taken : (name ++ after).takeWhile isVarContinue = name ∧
        (name ++ after).dropWhile isVarContinue = after := by
      rw [List.takeWhile_append_of_pos continues, List.dropWhile_append_of_pos continues]
      cases after with
      | nil => exact ⟨List.append_nil _, rfl⟩
      | cons c after =>
        have stop := stops c rfl
        rw [List.takeWhile_cons_of_neg (by rw [stop]; decide), List.dropWhile_cons_of_neg (by rw [stop]; decide)]
        exact ⟨List.append_nil _, rfl⟩
    simp only [nextPiece, if_neg other, start, taken.1, taken.2]
    rfl
  | plain escapes refers =>
    unfold nextPiece
    rw [if_neg fun both => escapes both.1 both.2]
    split_ifs with dollar
    · cases rest with
      | nil => rw [dollar]
      | cons next rest =>
        obtain ⟨brace, start⟩ := refers dollar next rfl
        simp only [if_neg brace, start]
        rw [dollar]
        rfl
    · rfl

theorem wordPieces_of_taken (taken : PieceTaken ch rest piece after) :
    wordPieces (ch :: rest) = piece :: wordPieces after := by
  rw [wordPieces, nextPiece_of_taken taken]

/-- A brace that is still open at the end. -/
def WordPiece.opens : WordPiece → Bool
  | .text ('$' :: '{' :: name) => !name.contains '}'
  | _ => false

/-- A piece stays what it is in front of more text, if nothing is open and the text does not go on with it. -/
theorem PieceTaken.append (taken : PieceTaken ch rest piece after) {more : List Char}
    (closed : piece.opens = false)
    (stops : ∀ c ∈ more.head?, (∃ name, piece = .reference name false) → after = [] → isVarContinue c = false)
    (plain : ∀ c ∈ more.head?, rest = [] → c ≠ '$' ∧ c ≠ '{' ∧ isVarStart c = false) :
    PieceTaken ch (rest ++ more) piece (after ++ more) := by
  cases taken with
  | escape => exact .escape (after ++ more)
  | @braced name after inside valid =>
    rw [List.cons_append, List.append_assoc]
    exact .braced (after ++ more) inside valid
  | @invalid name after inside invalid =>
    rw [List.cons_append, List.append_assoc]
    exact .invalid (after ++ more) inside invalid
  | unclosed inside =>
    rw [WordPiece.opens, Bool.not_eq_false', List.contains_iff_mem] at closed
    exact absurd closed inside
  | @named first name after start continues stops' =>
    rw [List.cons_append, List.append_assoc]
    refine .named start continues fun c head => ?_
    cases after with
    | nil => exact stops c head ⟨_, rfl⟩ rfl
    | cons next after => exact stops' c head
  | plain escapes refers =>
    cases rest with
    | cons next rest => exact .plain escapes refers
    | nil =>
      refine .plain (fun _ head => ?_) fun _ c head => ?_
      · exact (plain '$' head rfl).1 rfl
      · exact (plain c head rfl).2

/-- A brace that closes is the end of a piece, whatever was open before it. -/
theorem wordPieces_closing (inside : List Char) (opens : '}' ∉ inside) (after : List Char) :
    wordPieces (inside ++ '}' :: after) = wordPieces (inside ++ ['}']) ++ wordPieces after := by
  match inside with
  | [] =>
    rw [List.nil_append, List.nil_append, wordPieces_plain _ (by decide) (by decide),
      wordPieces_plain _ (by decide) (by decide), wordPieces]
    rfl
  | ch :: inside =>
    obtain ⟨piece, behind, taken, pieces⟩ := wordPieces_cons ch (inside ++ ['}'])
    have clean : '}' ∉ inside := fun member => opens (List.mem_cons_of_mem _ member)
    have running := not_isVarContinue_brace
    have whole : PieceTaken ch (inside ++ ['}'] ++ after) piece (behind ++ after) := by
      refine taken.append ?_ ?_ fun _ _ none => ?_
      · generalize total : inside ++ ['}'] = text at taken
        cases taken with
        | unclosed inside' =>
          cases inside with
          | nil => cases total
          | cons brace shorter => exact absurd (by simp [← (List.cons.inj total).2]) inside'
        | invalid => simp [WordPiece.opens]
        | plain => simp [WordPiece.opens]
        | escape => rfl
        | braced => rfl
        | named => rfl
      · rintro c - ⟨name, rfl⟩ rfl
        have raw := taken.raw
        generalize total : inside ++ ['}'] = text at taken raw
        cases taken with
        | @named first name _ start continues stops =>
          have last : '}' ∈ first :: name := by
            rw [List.append_nil] at total
            rw [← total]
            simp
          have goes : isVarContinue '}' = true := by
            rcases List.mem_cons.mp last with same | later
            · rw [same]
              exact isVarContinue_of_start start
            · exact continues '}' later
          rw [running] at goes
          cases goes
      · simp at none
    have ends : behind = [] ∨ ∃ shorter, behind = shorter ++ ['}'] ∧ '}' ∉ shorter ∧
        shorter.length ≤ inside.length := by
      have raw := taken.raw
      cases behind using List.reverseRecOn with
      | nil => exact .inl rfl
      | append_singleton shorter last =>
        have size := taken.shorter
        rw [← List.append_assoc, ← List.cons_append] at raw
        obtain ⟨front, same⟩ := List.append_inj' raw rfl
        refine .inr ⟨shorter, by rw [List.singleton_inj.mp same], fun member => opens ?_, by simpa using size⟩
        rw [← front]
        exact List.mem_append_right _ member
    have start : ch :: inside ++ '}' :: after = ch :: (inside ++ ['}'] ++ after) := by simp
    rw [start, wordPieces_of_taken whole, List.cons_append, pieces]
    rcases ends with rfl | ⟨shorter, rfl, clean, size⟩
    · rw [List.nil_append, wordPieces]
      rfl
    · have rest := wordPieces_closing shorter clean after
      rw [List.append_assoc, List.singleton_append, rest]
      rfl
termination_by inside.length

theorem wordPieces_brace (inside : List Char) (opens : '}' ∉ inside) (after : List Char) :
    ∃ front, wordPieces (inside ++ '}' :: after) = front ++ wordPieces after ∧
      rawText front = inside ++ ['}'] :=
  ⟨_, wordPieces_closing inside opens after, rawText_wordPieces _⟩

variable {ahead tail : List Char}

/-- A text behind a slash is not reached by a name that starts before the slash. -/
theorem split_before_slash {name : List Char} (slash : tail.head? = some '/')
    (clean : '/' ∉ name) (total : name ++ after = ahead ++ tail) :
    ∃ shorter, after = shorter ++ tail ∧ name.length + shorter.length = ahead.length := by
  rcases List.append_eq_append_iff.mp total with ⟨more, rfl, split⟩ | ⟨less, rfl, split⟩
  · exact ⟨more, split, by simp⟩
  · cases less with
    | nil => exact ⟨[], split.symm, by simp⟩
    | cons sign less =>
      rw [split] at slash
      cases slash
      simp at clean

/-- A piece that is taken in front of a slash ends before the slash, or it is text that ends where a piece
behind the slash would end. -/
theorem PieceTaken.before_slash (slash : tail.head? = some '/')
    (taken : PieceTaken ch (ahead ++ tail) piece after) :
    (∃ shorter, after = shorter ++ tail ∧ shorter.length ≤ ahead.length) ∨
    ∃ lead front, piece = .text (lead ++ rawText front) ∧
      wordPieces tail = front ++ wordPieces after := by
  generalize total : ahead ++ tail = text at taken
  cases taken with
  | escape rest =>
    have dollar : ['$'] ++ after = ahead ++ tail := total.symm
    obtain ⟨shorter, split, size⟩ := split_before_slash slash (by decide) dollar
    exact .inl ⟨shorter, split, by simp at size; omega⟩
  | @braced name behind inside valid =>
    have clean : '/' ∉ '{' :: (name ++ ['}']) := by
      have clean : '/' ∉ name := fun member => by
        have continues := isVarContinue_of_valid valid '/' member
        rw [not_isVarContinue_slash] at continues
        cases continues
      simp [clean]
    have closed : ('{' :: (name ++ ['}'])) ++ after = ahead ++ tail := by
      rw [total]
      simp
    obtain ⟨shorter, split, size⟩ := split_before_slash slash clean closed
    exact .inl ⟨shorter, split, by simp at size; omega⟩
  | @invalid name behind inside invalid =>
    cases ahead with
    | nil =>
      rw [List.nil_append] at total
      rw [total] at slash
      cases slash
    | cons brace ahead =>
      obtain ⟨rfl, inner⟩ := List.cons.inj total
      rcases List.append_eq_append_iff.mp inner with ⟨more, rfl, split⟩ | ⟨less, rfl, split⟩
      · -- The brace closes behind the slash.
        obtain ⟨front, pieces, raw⟩ := wordPieces_brace more (by
          intro member
          exact inside (by simp [member])) after
        refine .inr ⟨'$' :: '{' :: ahead, front, ?_, by rw [split, pieces]⟩
        rw [raw]
        simp
      · cases less with
        | nil =>
          rw [List.nil_append] at split
          rw [← split] at slash
          cases slash
        | cons close less =>
          obtain ⟨rfl, rfl⟩ := List.cons.inj split
          exact .inl ⟨less, rfl, by simp; omega⟩
  | @unclosed name inside =>
    cases ahead with
    | nil =>
      rw [List.nil_append] at total
      rw [total] at slash
      cases slash
    | cons brace ahead =>
      obtain ⟨rfl, rfl⟩ := List.cons.inj total
      refine .inr ⟨'$' :: '{' :: ahead, wordPieces tail, ?_, by simp [wordPieces]⟩
      rw [rawText_wordPieces]
      rfl
  | @named first name behind start continues stops =>
    have clean : '/' ∉ first :: name := fun member => by
      have goes : isVarContinue '/' = true := by
        rcases List.mem_cons.mp member with rfl | later
        · exact isVarContinue_of_start start
        · exact continues '/' later
      rw [not_isVarContinue_slash] at goes
      cases goes
    obtain ⟨shorter, split, size⟩ := split_before_slash slash clean (by rw [total]; rfl)
    exact .inl ⟨shorter, split, by simp at size; omega⟩
  | plain => exact .inl ⟨ahead, total.symm, Nat.le_refl _⟩

/-- Whatever stands in front of a slash, the text at the end of what follows it stays what it is. -/
theorem expandVars_ends (snapshot : Option EnvSnapshot) (ahead : List Char)
    (slash : tail.head? = some '/') (pieces : wordPieces tail = front ++ back) (text : AllText back) :
    ∃ lead, expandVars snapshot (ahead ++ tail) = lead ++ rawText back := by
  match ahead with
  | [] =>
    refine ⟨front.flatMap (WordPiece.expand snapshot), ?_⟩
    rw [List.nil_append, expandVars, pieces, List.flatMap_append, text.expand]
  | ch :: ahead =>
    obtain ⟨piece, after, taken, total⟩ := wordPieces_cons ch (ahead ++ tail)
    have expands : expandVars snapshot (ch :: ahead ++ tail) =
        piece.expand snapshot ++ expandVars snapshot after := by
      rw [expandVars, List.cons_append, total, List.flatMap_cons, expandVars]
    rw [expands]
    rcases taken.before_slash slash with ⟨shorter, rfl, size⟩ | ⟨lead, inside, rfl, rest⟩
    · obtain ⟨lead, ends⟩ := expandVars_ends snapshot shorter slash pieces text
      exact ⟨piece.expand snapshot ++ lead, by rw [ends, List.append_assoc]⟩
    · rw [pieces] at rest
      rcases List.append_eq_append_iff.mp rest with ⟨more, rfl, split⟩ | ⟨less, rfl, split⟩
      · -- The text at the end starts inside the piece.
        have behind : AllText (wordPieces after) := fun piece member =>
          text piece (by rw [split]; exact List.mem_append_right _ member)
        refine ⟨lead ++ rawText front, ?_⟩
        rw [expandVars, behind.expand, split]
        simp [WordPiece.expand, rawText]
      · refine ⟨lead ++ rawText inside ++ less.flatMap (WordPiece.expand snapshot), ?_⟩
        rw [expandVars, split, List.flatMap_append, text.expand]
        simp [WordPiece.expand]
termination_by ahead.length

end InFront

end CueShell
