import CueShell.Soundness.GuardrailExpansion
import CueShell.ToMathlib.Terms

/-! # Expansion in a single pass

A tilde and the variables of a word would be replaced in one scan over the word. The code scans the text
again that the tilde has become, so what HOME contains is expanded too, and an absolute path behind the
tilde replaces HOME.
-/

namespace CueShell

open Terms

variable {snapshot : Option EnvSnapshot} {word base tail home rest : List Char}

section Spec

/-- HOME without the slash at its end. -/
def homeBase (home : List Char) : List Char := if home.getLast? = some '/' then home.dropLast else home

/-- The path of a text below HOME. -/
def joinHome (home path : List Char) : List Char := homeBase home ++ '/' :: path

/-- One scan over the word; only what the word itself contains is expanded. -/
def singlePass (snapshot : Option EnvSnapshot) (word : List Char) : List Char :=
  match lookupEnv snapshot "HOME", word with
  | some home, ['~'] => home.toList
  | some home, '~' :: '/' :: rest => joinHome home.toList (expandVars snapshot rest)
  | _, _ => expandVars snapshot word

/-- A word is expanded in one scan, and a path below HOME starts with HOME. -/
structure ExpandsOnce (snapshot : Option EnvSnapshot) (word : String) : Prop where
  once : (expandWord snapshot word).toList = singlePass snapshot word.toList
  below : ∀ home rest, lookupEnv snapshot "HOME" = some home → word.toList = '~' :: '/' :: rest →
    home.toList <+: (expandWord snapshot word).toList

/-- A text that ends in a brace that is still open. -/
def opensBrace (text : List Char) : Bool := (wordPieces text).getLast?.any WordPiece.opens

/-- The text up to the first brace that closes. -/
def closing (text : List Char) : List Char :=
  text.takeWhile (· ≠ '}') ++ (text.dropWhile (· ≠ '}')).take 1

/-- The text behind the first brace that closes. -/
def beyondBrace (text : List Char) : List Char := (text.dropWhile (· ≠ '}')).drop 1

/-- HOME and a path below it are read apart: HOME is a text without references and escaped dollars, and
a brace that it opens takes none from the path. -/
structure ReadApart (home rest : List Char) : Prop where
  nonempty : home ≠ []
  relative : rest.head? ≠ some '/'
  text : AllText (wordPieces (homeBase home))
  covered : opensBrace (homeBase home) = true → AllText (wordPieces (closing rest))

/-- What the second scan reads of HOME stands for itself. -/
def ReadsOnce (home : List Char) : List Char → Prop
  | ['~'] => AllText (wordPieces home)
  | '~' :: '/' :: rest => ReadApart home rest
  | _ => True

end Spec

section Join

theorem prefix_joinHome (home path : List Char) : home <+: joinHome home path := by
  rw [joinHome, homeBase]
  split_ifs with slash
  · obtain ⟨front, rfl⟩ := List.getLast?_eq_some_iff.mp slash
    exact ⟨path, by simp⟩
  · exact List.prefix_append ..

theorem pathJoin_relative (nonempty : home ≠ []) (relative : rest.head? ≠ some '/') :
    pathJoin home rest = joinHome home rest := by
  rw [pathJoin, if_neg relative, joinHome, homeBase]
  obtain ⟨front, last, rfl⟩ := (List.eq_nil_or_concat home).resolve_left nonempty
  rw [List.concat_eq_append, List.getLast?_concat, List.dropLast_concat]
  by_cases slash : last = '/'
  · subst slash
    rw [if_pos rfl, Option.any_some, decide_eq_false (by simp)]
    exact List.append_assoc ..
  · rw [if_neg fun same => slash (Option.some.inj same), Option.any_some, decide_eq_true slash]
    rfl

theorem singlePass_unset (unset : lookupEnv snapshot "HOME" = none) :
    singlePass snapshot word = expandVars snapshot word := by
  unfold singlePass
  rw [unset]

theorem singlePass_alone {home : String} (set : lookupEnv snapshot "HOME" = some home) :
    singlePass snapshot ['~'] = home.toList := by
  simp only [singlePass, set]

theorem singlePass_path {home : String} (set : lookupEnv snapshot "HOME" = some home) :
    singlePass snapshot ('~' :: '/' :: rest) = joinHome home.toList (expandVars snapshot rest) := by
  simp only [singlePass, set]

theorem singlePass_other (tilde : ¬Tilded word) : singlePass snapshot word = expandVars snapshot word := by
  unfold singlePass
  split
  · exact absurd (.inl rfl) tilde
  · exact absurd (.inr ⟨_, rfl⟩) tilde
  · rfl

theorem ExpandsOnce.of_once {word : String}
    (once : (expandWord snapshot word).toList = singlePass snapshot word.toList) : ExpandsOnce snapshot word where
  once := once
  below := by
    intro home rest set shape
    rw [once, shape, singlePass_path set]
    exact prefix_joinHome _ _

end Join

section Braces

theorem PieceTaken.unclosed_of_opens {ch : Char} {after : List Char} {piece : WordPiece}
    (taken : PieceTaken ch rest piece after) (opens : piece.opens = true) :
    ∃ name, ch = '$' ∧ rest = '{' :: name ∧ '}' ∉ name ∧ piece = .text ('$' :: '{' :: name) ∧ after = [] := by
  cases taken with
  | @unclosed name inside => exact ⟨name, rfl, rfl, inside, rfl, rfl⟩
  | invalid => simp [WordPiece.opens] at opens
  | plain => simp [WordPiece.opens] at opens
  | escape => cases opens
  | braced => cases opens
  | named => cases opens

theorem wordPieces_closing_beyond (text : List Char) :
    wordPieces text = wordPieces (closing text) ++ wordPieces (beyondBrace text) := by
  rw [closing, beyondBrace]
  rcases split_at_brace text with ⟨name, after, rfl, inside, taken, dropped⟩ | ⟨-, taken, dropped⟩
  · rw [taken, dropped, wordPieces_closing name inside after]
    rfl
  · rw [taken, dropped]
    simp [wordPieces]

/-- An open brace takes a text behind it up to the first brace that closes. -/
theorem wordPieces_unclosed {name : List Char} (inside : '}' ∉ name) (slash : tail.head? = some '/') :
    wordPieces ('$' :: '{' :: (name ++ tail)) =
      .text ('$' :: '{' :: name ++ closing tail) :: wordPieces (beyondBrace tail) := by
  rw [closing, beyondBrace]
  rcases split_at_brace tail with ⟨front, after, rfl, inside', taken, dropped⟩ | ⟨outside, taken, dropped⟩
  · rw [taken, dropped, ← List.append_assoc]
    have clean : '}' ∉ name ++ front := by simp [inside, inside']
    have invalid : isValidVarName (name ++ front) = false := by
      rw [← Bool.not_eq_true]
      intro valid
      have member : '/' ∈ name ++ front := by
        cases front with
        | nil => cases slash
        | cons first front =>
          obtain rfl : first = '/' := Option.some.inj slash
          simp
      have continues := isVarContinue_of_valid valid '/' member
      rw [not_isVarContinue_slash] at continues
      cases continues
    rw [wordPieces_of_taken (.invalid after clean invalid)]
    simp
  · rw [taken, dropped, wordPieces_of_taken (.unclosed (by simp [inside, outside]))]
    simp

/-- A text in front of a slash is read as it is alone, but for a brace that is still open. -/
theorem wordPieces_before_slash (base : List Char) (slash : tail.head? = some '/') :
    (opensBrace base = false ∧ wordPieces (base ++ tail) = wordPieces base ++ wordPieces tail) ∨
    (opensBrace base = true ∧ ∃ front lead, wordPieces base = front ++ [.text lead] ∧
      wordPieces (base ++ tail) = front ++ .text (lead ++ closing tail) :: wordPieces (beyondBrace tail)) := by
  match base with
  | [] => exact .inl (by simp [opensBrace, wordPieces])
  | ch :: rest =>
    obtain ⟨piece, after, taken, pieces⟩ := wordPieces_cons ch rest
    cases opens : piece.opens with
    | true =>
      obtain ⟨name, rfl, rfl, inside, rfl, rfl⟩ := taken.unclosed_of_opens opens
      rw [wordPieces] at pieces
      refine .inr ⟨by rw [opensBrace, pieces]; exact opens, [], _, pieces, ?_⟩
      exact wordPieces_unclosed inside slash
    | false =>
      have whole : PieceTaken ch (rest ++ tail) piece (after ++ tail) := by
        refine taken.append opens (fun c head _ _ => ?_) fun c head _ => ?_
        all_goals
          rw [slash] at head
          obtain rfl := Option.some.inj head
          decide
      have size := taken.shorter
      have behind : opensBrace (ch :: rest) = opensBrace after := by
        rw [opensBrace, opensBrace, pieces]
        cases more : wordPieces after with
        | nil => exact opens
        | cons next others => rw [List.getLast?_cons_cons]
      rw [List.cons_append, wordPieces_of_taken whole, pieces, behind]
      rcases wordPieces_before_slash after slash with ⟨closed, parts⟩ | ⟨opened, front, lead, parts, parts'⟩
      · exact .inl ⟨closed, by rw [parts]; rfl⟩
      · exact .inr ⟨opened, piece :: front, lead, by rw [parts]; rfl, by rw [parts']; rfl⟩
termination_by base.length

/-- A text without backslashes and dollars stands for itself and opens nothing. -/
theorem read_of_plain {chars : List Char} (slash : '\\' ∉ chars) (dollar : '$' ∉ chars) :
    AllText (wordPieces chars) ∧ opensBrace chars = false := by
  induction chars with
  | nil => simp [wordPieces, AllText, opensBrace]
  | cons c chars ih =>
    rw [List.mem_cons, not_or] at slash dollar
    obtain ⟨text, closed⟩ := ih slash.2 dollar.2
    rw [opensBrace, wordPieces_plain _ (Ne.symm slash.1) (Ne.symm dollar.1)]
    refine ⟨List.forall_mem_cons.mpr ⟨rfl, text⟩, ?_⟩
    cases more : wordPieces chars with
    | nil => simp [WordPiece.opens]
    | cons next others =>
      rw [List.getLast?_cons_cons, ← more]
      exact closed

theorem closing_slash (rest : List Char) : closing ('/' :: rest) = '/' :: closing rest := by
  rw [closing, List.takeWhile_cons_of_pos (by decide), List.dropWhile_cons_of_pos (by decide), closing]
  rfl

theorem allText_slash : AllText (wordPieces ('/' :: rest)) ↔ AllText (wordPieces rest) := by
  rw [wordPieces_slash]
  exact ⟨fun text piece member => text piece (List.mem_cons_of_mem _ member),
    fun text => List.forall_mem_cons.mpr ⟨rfl, text⟩⟩

end Braces

section Suffices

/-- HOME and the path are expanded apart where they are read apart. -/
theorem ReadApart.expandVars (apart : ReadApart home rest) :
    CueShell.expandVars snapshot (joinHome home rest) = joinHome home (CueShell.expandVars snapshot rest) := by
  rw [joinHome, joinHome, ← expandVars_slash]
  rcases @wordPieces_before_slash ('/' :: rest) (homeBase home) rfl with
    ⟨-, parts⟩ | ⟨opened, front, lead, base, parts⟩
  · rw [CueShell.expandVars, parts, List.flatMap_append, apart.text.expand, rawText_wordPieces,
      ← CueShell.expandVars]
  · have covered : AllText (wordPieces (closing ('/' :: rest))) := by
      rw [closing_slash]
      exact allText_slash.mpr (apart.covered opened)
    have text := apart.text
    have raw := rawText_wordPieces (homeBase home)
    rw [base] at text raw
    have inner : AllText front := fun piece member => text piece (List.mem_append_left _ member)
    rw [CueShell.expandVars, parts, List.flatMap_append, inner.expand, CueShell.expandVars,
      wordPieces_closing_beyond ('/' :: rest), List.flatMap_append, covered.expand, rawText_wordPieces, ← raw]
    simp [rawText, WordPiece.raw, WordPiece.expand]

/-- A word is expanded in one scan where the second scan reads HOME as it stands. -/
theorem expandsOnce_of_readsOnce {word : String}
    (reads : ∀ home, lookupEnv snapshot "HOME" = some home → ReadsOnce home.toList word.toList) :
    ExpandsOnce snapshot word := by
  refine .of_once ?_
  rw [expandWord_toList]
  cases set : lookupEnv snapshot "HOME" with
  | none => rw [expandTilde_unset set, singlePass_unset set]
  | some home =>
    have reads := reads home set
    by_cases tilde : Tilded word.toList
    · generalize word.toList = word at tilde reads
      rcases tilde with rfl | ⟨rest, rfl⟩
      · rw [expandTilde_alone set, AllText.expandVars reads, singlePass_alone set]
      · have apart : ReadApart home.toList rest := reads
        rw [List.cons_append, List.singleton_append, expandTilde_path set,
          pathJoin_relative apart.nonempty apart.relative, apart.expandVars]
        exact (singlePass_path set).symm
    · rw [expandTilde_of_not_tilded tilde, singlePass_other tilde]

end Suffices

section Needed

/-- A piece as letters and variables. -/
def WordPiece.symbols : WordPiece → List (Char ⊕ String)
  | .text chars => letters chars
  | .escape => [.inl '$']
  | .reference name _ => [.inr (String.ofList name)]

/-- The value of a variable; one that is not set is empty. -/
def valueOf (snapshot : Option EnvSnapshot) (name : String) : List Char := ((lookupEnv snapshot name).getD "").toList

theorem evaluate_symbols (pieces : List WordPiece) :
    evaluate (valueOf snapshot) (pieces.flatMap WordPiece.symbols) = pieces.flatMap (WordPiece.expand snapshot) := by
  induction pieces with
  | nil => rfl
  | cons piece pieces ih =>
    rw [List.flatMap_cons, List.flatMap_cons, evaluate_append, ih]
    congr 1
    cases piece with
    | text chars => exact evaluate_letters chars
    | escape => rfl
    | reference name braced => exact List.append_nil _

theorem letters_append (front back : List Char) :
    (letters (front ++ back) : List (Char ⊕ String)) = letters front ++ letters back := List.map_append

/-- Pieces that read as the letters they consist of are text. -/
theorem allText_of_symbols {pieces : List WordPiece} {first second : List (Char ⊕ String)}
    (marked : ∀ piece ∈ pieces, ∃ ch rest after, PieceTaken ch rest piece after)
    (same : pieces.flatMap WordPiece.symbols ++ first = letters (rawText pieces) ++ second) :
    AllText pieces ∧ first = second := by
  induction pieces with
  | nil => exact ⟨fun piece member => absurd member List.not_mem_nil, same⟩
  | cons piece pieces ih =>
    rw [List.flatMap_cons, rawText, List.flatMap_cons, letters_append, List.append_assoc, List.append_assoc]
      at same
    cases piece with
    | text chars =>
      obtain ⟨text, same⟩ := ih (fun piece member => marked piece (List.mem_cons_of_mem _ member))
        (List.append_cancel_left same)
      exact ⟨List.forall_mem_cons.mpr ⟨rfl, text⟩, same⟩
    | escape => exact absurd (List.cons.inj same).1 (by decide)
    | reference name braced => cases braced <;> exact absurd (List.cons.inj same).1 Sum.inr_ne_inl

theorem taken_of_mem {piece : WordPiece} (member : piece ∈ wordPieces word) :
    ∃ ch rest after, PieceTaken ch rest piece after := by
  induction word using wordPieces.induct with
  | case1 => simp [wordPieces] at member
  | case2 ch rest ih =>
    rw [wordPieces] at member
    rcases List.mem_cons.mp member with rfl | later
    · exact ⟨ch, rest, _, nextPiece_taken ch rest⟩
    · exact ih later

theorem symbols_eq_letters (text : AllText (wordPieces word)) :
    (wordPieces word).flatMap WordPiece.symbols = letters word := by
  nth_rewrite 2 [← rawText_wordPieces word]
  rw [rawText, letters, List.map_flatMap]
  refine List.flatMap_congr fun piece member => ?_
  cases piece with
  | text chars => rfl
  | escape => cases text _ member
  | reference name braced => cases text _ member

theorem allText_of_letters (same : (wordPieces word).flatMap WordPiece.symbols = letters word) :
    AllText (wordPieces word) := by
  refine (@allText_of_symbols _ [] [] (fun _ => taken_of_mem) ?_).1
  rw [List.append_nil, List.append_nil, rawText_wordPieces, same]

theorem lookupKey_foldr (text : String → String) (names : List String) (name : String) :
    lookupKey (names.foldr (fun name env => putKey name (text name) env) []) name =
      if name ∈ names then some (text name) else none := by
  induction names with
  | nil => rfl
  | cons first names ih =>
    rw [List.foldr_cons, lookupKey_putKey, ih]
    by_cases same : first = name
    · rw [if_pos same, if_pos (by rw [same]; exact List.mem_cons_self), same]
    · rw [if_neg same]
      simp only [List.mem_cons, Ne.symm same, false_or]

/-- There is a snapshot with given values for the variables of two texts. -/
theorem exists_snapshot {first second : List (Char ⊕ String)} {home : String} {value : String → List Char}
    (fresh : .inr "HOME" ∉ first) (fresh' : .inr "HOME" ∉ second)
    (varies : Varies (fun name => if name = "HOME" then home.toList else []) first second value) :
    ∃ snapshot, lookupEnv snapshot "HOME" = some home ∧ valueOf snapshot = value := by
  let names := (first ++ second).filterMap Sum.getRight?
  let env := putKey "HOME" home (names.foldr (fun name env => putKey name (String.ofList (value name)) env) [])
  have found (name : String) : lookupKey env name = if "HOME" = name then some home else
      if name ∈ names then some (String.ofList (value name)) else none := by
    rw [lookupKey_putKey, lookupKey_foldr (fun name => String.ofList (value name))]
  refine ⟨some ⟨env, "/"⟩, (found "HOME").trans (if_pos rfl), ?_⟩
  funext name
  rw [valueOf, lookupEnv, Option.bind_some, found]
  split_ifs with same member
  · rw [← same, varies "HOME" fresh fresh']
    exact (if_pos rfl).symm
  · exact String.toList_ofList
  · have outside : .inr name ∉ first ++ second := fun member' =>
      member (List.mem_filterMap.mpr ⟨_, member', rfl⟩)
    rw [varies name (fun inside => outside (List.mem_append_left _ inside))
      (fun inside => outside (List.mem_append_right _ inside))]
    exact (if_neg (Ne.symm same)).symm

/-- Texts that stand for the same under all snapshots with a HOME are the same. -/
theorem eq_of_snapshots {first second : List (Char ⊕ String)} (home : String)
    (fresh : .inr "HOME" ∉ first) (fresh' : .inr "HOME" ∉ second)
    (same : ∀ snapshot, lookupEnv snapshot "HOME" = some home →
      evaluate (valueOf snapshot) first = evaluate (valueOf snapshot) second) : first = second := by
  have : Nontrivial Char := ⟨'a', 'b', by decide⟩
  refine eq_of_evaluate (fun name => if name = "HOME" then home.toList else []) fun value varies => ?_
  obtain ⟨snapshot, set, values⟩ := exists_snapshot fresh fresh' varies
  rw [← values]
  exact same snapshot set

/-- The variables of a text are the names that it refers to. -/
theorem mem_symbols {name : String} {pieces : List WordPiece} :
    .inr name ∈ pieces.flatMap WordPiece.symbols ↔ name ∈ pieces.filterMap WordPiece.name? := by
  rw [List.mem_flatMap, List.mem_filterMap]
  refine exists_congr fun piece => and_congr_right fun _ => ?_
  cases piece with
  | text chars => simp [WordPiece.symbols, WordPiece.name?, letters]
  | escape => simp [WordPiece.symbols, WordPiece.name?]
  | reference other braced => simp [WordPiece.symbols, WordPiece.name?, eq_comm]

/-- HOME and a path below it refer to no more together than apart. -/
theorem referredNames_before_slash {name : String} (slash : tail.head? = some '/')
    (member : name ∈ referredNames (base ++ tail)) : name ∈ referredNames base ∨ name ∈ referredNames tail := by
  rw [referredNames] at member ⊢
  rcases wordPieces_before_slash base slash with ⟨-, parts⟩ | ⟨-, front, lead, parts, parts'⟩
  · rw [parts, List.filterMap_append, List.mem_append] at member
    exact member
  · rw [parts', List.filterMap_append, List.mem_append] at member
    rw [parts, List.filterMap_append, List.mem_append, referredNames, wordPieces_closing_beyond tail,
      List.filterMap_append, List.mem_append]
    exact member.imp .inl .inr

theorem referredNames_homeBase {name : String} (member : name ∈ referredNames (homeBase home)) :
    name ∈ referredNames home := by
  rw [homeBase] at member
  split_ifs at member with slash
  · obtain ⟨front, rfl⟩ := List.getLast?_eq_some_iff.mp slash
    rw [List.dropLast_concat] at member
    rw [referredNames] at member ⊢
    rcases @wordPieces_before_slash ['/'] front rfl with ⟨-, parts⟩ | ⟨-, inner, lead, parts, parts'⟩
    · rw [parts, List.filterMap_append]
      exact List.mem_append_left _ member
    · rw [parts, List.filterMap_append, List.mem_append] at member
      rw [parts', List.filterMap_append]
      exact List.mem_append_left _ (member.resolve_right (by simp [WordPiece.name?]))
  · exact member

/-- A path below HOME that is expanded in one scan under all snapshots is read apart from HOME. -/
theorem readApart_of_expandVars {home : String} (nonempty : home.toList ≠ []) (relative : rest.head? ≠ some '/')
    (fresh : "HOME" ∉ referredNames home.toList) (fresh' : "HOME" ∉ referredNames rest)
    (once : ∀ snapshot, lookupEnv snapshot "HOME" = some home →
      expandVars snapshot (joinHome home.toList rest) = joinHome home.toList (expandVars snapshot rest)) :
    ReadApart home.toList rest := by
  have below : "HOME" ∉ referredNames ('/' :: rest) := by
    rw [referredNames, wordPieces_slash]
    exact fresh'
  have joined : (wordPieces (homeBase home.toList ++ '/' :: rest)).flatMap WordPiece.symbols =
      letters (homeBase home.toList) ++ (wordPieces ('/' :: rest)).flatMap WordPiece.symbols := by
    refine eq_of_snapshots home (fun member => ?_) (fun member => ?_) fun snapshot set => ?_
    · rcases referredNames_before_slash rfl (mem_symbols.mp member) with inside | inside
      · exact fresh (referredNames_homeBase inside)
      · exact below inside
    · rcases List.mem_append.mp member with inside | inside
      · simp [letters] at inside
      · exact below (mem_symbols.mp inside)
    · rw [evaluate_symbols, evaluate_append, evaluate_letters, evaluate_symbols, ← expandVars, ← expandVars,
        expandVars_slash]
      exact once snapshot set
  rcases @wordPieces_before_slash ('/' :: rest) (homeBase home.toList) rfl with
    ⟨closed, parts⟩ | ⟨opened, front, lead, parts, parts'⟩
  · rw [parts, List.flatMap_append] at joined
    nth_rewrite 2 [← rawText_wordPieces (homeBase home.toList)] at joined
    have text := (allText_of_symbols (fun _ => taken_of_mem) joined).1
    exact ⟨nonempty, relative, text, fun opened => absurd (closed.symm.trans opened) Bool.false_ne_true⟩
  · have raw := rawText_wordPieces (homeBase home.toList)
    rw [parts, rawText, List.flatMap_append, ← rawText] at raw
    rw [parts', wordPieces_closing_beyond ('/' :: rest), ← raw, List.flatMap_append, List.flatMap_append,
      letters_append, List.append_assoc] at joined
    have marked : ∀ piece ∈ front, ∃ ch rest after, PieceTaken ch rest piece after := fun piece member =>
      taken_of_mem (by rw [parts]; exact List.mem_append_left _ member)
    obtain ⟨inner, behind⟩ := allText_of_symbols marked joined
    have covered : (wordPieces (closing ('/' :: rest))).flatMap WordPiece.symbols = letters (closing ('/' :: rest)) := by
      have lead : letters (lead ++ closing ('/' :: rest)) = letters lead ++
          (wordPieces (closing ('/' :: rest))).flatMap WordPiece.symbols := by
        simp only [List.flatMap_cons, List.flatMap_nil, List.append_nil, WordPiece.symbols, WordPiece.raw] at behind
        rw [← List.append_assoc] at behind
        exact List.append_cancel_right behind
      rw [letters_append] at lead
      exact (List.append_cancel_left lead).symm
    refine ⟨nonempty, relative, ?_, fun _ => ?_⟩
    · rw [parts]
      intro piece member
      rcases List.mem_append.mp member with inside | last
      · exact inner piece inside
      · rw [List.mem_singleton.mp last]
        rfl
    · refine allText_slash.mp ?_
      rw [← closing_slash]
      exact allText_of_letters covered

/-- Where HOME is not read as it stands, some snapshot with it shows that. -/
theorem readsOnce_of_expandsOnce {home word : String} (fresh : "HOME" ∉ referredNames home.toList)
    (fresh' : "HOME" ∉ referredNames word.toList)
    (once : ∀ snapshot, lookupEnv snapshot "HOME" = some home → ExpandsOnce snapshot word) :
    ReadsOnce home.toList word.toList := by
  have once : ∀ snapshot, lookupEnv snapshot "HOME" = some home →
      expandVars snapshot (expandTilde snapshot word.toList) = singlePass snapshot word.toList := by
    intro snapshot set
    rw [← expandWord_toList]
    exact (once snapshot set).once
  generalize word.toList = word at fresh' once
  by_cases tilde : Tilded word
  · rcases tilde with rfl | ⟨rest, rfl⟩
    · refine allText_of_letters (eq_of_snapshots home (fun member => fresh (mem_symbols.mp member)) ?_ ?_)
      · simp [letters]
      · intro snapshot set
        have same := once snapshot set
        rw [expandTilde_alone set, singlePass_alone set] at same
        rw [evaluate_symbols, evaluate_letters, ← expandVars, same]
    · rw [List.cons_append, List.singleton_append] at fresh' once ⊢
      have below : "HOME" ∉ referredNames rest := by
        rwa [referredNames, wordPieces_tilde, wordPieces_slash] at fresh'
      have joined : pathJoin home.toList rest ≠ rest := by
        intro alone
        have set : lookupEnv (some ⟨[("HOME", home)], "/"⟩) "HOME" = some home := rfl
        have same := congrArg List.length (once _ set)
        rw [expandTilde_path set, alone, singlePass_path set, joinHome, List.length_append, List.length_cons] at same
        omega
      have relative : rest.head? ≠ some '/' := fun absolute => joined (by rw [pathJoin, if_pos absolute])
      have nonempty : home.toList ≠ [] := by
        intro empty
        rw [empty, pathJoin, if_neg relative] at joined
        exact joined rfl
      refine readApart_of_expandVars nonempty relative fresh below fun snapshot set => ?_
      have same := once snapshot set
      rwa [expandTilde_path set, pathJoin_relative nonempty relative, singlePass_path set] at same
  · unfold ReadsOnce
    split
    · exact absurd (.inl rfl) tilde
    · exact absurd (.inr ⟨_, rfl⟩) tilde
    · trivial

end Needed

end CueShell
