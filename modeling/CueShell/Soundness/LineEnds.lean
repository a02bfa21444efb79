import CueShell.Proofs.LineEndParsing

/-! # Line ends

A text and the same text with longer line ends are read alike where no line ends directly behind a
regular word and no raw argument goes over a line end. File scripts are always read alike: their
carriage returns are taken off before they are tokenized.
-/

namespace CueShell

section Chunks

variable {source : List Char} {chunks chunks' : List ScriptChunk} {current current' tokens tokens' : List Spanned}

/-- Statements with the same tokens. -/
def SameChunk (source : List Char) (chunk chunk' : ScriptChunk) : Prop :=
  List.Forall₂ (SameToken source) chunk.tokens chunk'.tokens

theorem pushScriptChunk_same (same : List.Forall₂ (SameChunk source) chunks chunks')
    (within : List.Forall₂ (SameToken source) current current') :
    List.Forall₂ (SameChunk source) (pushScriptChunk source chunks current)
      (pushScriptChunk (Text.toCrlf source) chunks' current') := by
  cases within with
  | nil => exact same
  | cons first rest =>
    obtain ⟨last, last', isLast, isLast', -, _, cut, -, isCut, span, span'⟩ := forall₂_getLast? first rest
    have ⟨_, start, _, isStart, _, spanFirst, spanFirst'⟩ := first
    have slice := Text.slice_toCrlf isStart isCut
    simp only [pushScriptChunk, List.head?_cons, isLast, isLast', spanFirst, spanFirst', span, span', slice,
      Text.trim_eq_nil, Text.isWhiteSpace_toCrlf]
    split
    · exact same
    · exact List.rel_append same (.cons (.cons first rest) .nil)

theorem shouldSplitOnNewline_same {depth : ℕ} (following : List.Forall₂ (SameToken source) tokens tokens')
    (within : List.Forall₂ (SameToken source) current current') :
    shouldSplitOnNewline tokens' depth current' = shouldSplitOnNewline tokens depth current := by
  have next : nextSignificant tokens' = nextSignificant tokens := by
    rw [nextSignificant, nextSignificant, map_token_eq following]
  rw [shouldSplitOnNewline, shouldSplitOnNewline, next]
  cases within with
  | nil => rfl
  | cons first rest =>
    obtain ⟨last, last', isLast, isLast', same, -⟩ := forall₂_getLast? first rest
    simp only [isLast, isLast', List.cons_ne_nil, if_false, Option.any_some, same]

/-- Both token lists are split into the same statements. -/
theorem splitLoop_same {depth : ℕ} (following : List.Forall₂ (SameToken source) tokens tokens')
    (same : List.Forall₂ (SameChunk source) chunks chunks')
    (within : List.Forall₂ (SameToken source) current current') :
    List.Forall₂ (SameChunk source) (splitLoop source chunks current depth tokens)
      (splitLoop (Text.toCrlf source) chunks' current' depth tokens') := by
  induction following generalizing chunks chunks' current current' depth with
  | nil => exact pushScriptChunk_same same within
  | @cons spanned spanned' tokens tokens' first rest ih =>
    have longer := List.rel_append within (.cons first .nil)
    rw [splitLoop, splitLoop, first.1]
    split
    · exact pushScriptChunk_same same within
    · exact ih same longer
    · exact ih same longer
    · exact ih same longer
    · exact ih same longer
    · rw [shouldSplitOnNewline_same rest within]
      split
      · exact ih (pushScriptChunk_same same within) .nil
      · exact ih same within
    · exact ih same longer

end Chunks

/-- No line ends directly behind a regular word, and no raw argument goes over a line end. -/
structure LineEndsClear (input : String) : Prop where
  words : ∀ tokens, Tokenizer.tokenize input = .ok tokens → WordsClear tokens
  raw : ∀ tokens, tokenizeForParser input = .ok tokens →
    ∀ chunk ∈ splitTopLevelStatements tokens input.toList,
      (⟨chunk.tokens, input.toList⟩ : Parser).RawOnLine

/-- The text with longer line ends. -/
def withCrlf (input : String) : String := String.ofList (Text.toCrlf input.toList)

section Input

variable {input : String}

theorem tokenizeForParser_crlf (clean : Unquoted input.toList) (clear : LineEndsClear input) :
    Agree (List.Forall₂ (SameToken input.toList)) (tokenizeForParser input)
      (tokenizeForParser (withCrlf input)) := by
  have aligned : Lockstep input.toList (Tokenizer.new input) (Tokenizer.new (withCrlf input)) := by
    have start := @Lockstep.aligned input.toList [] input.toList none none false rfl
    simpa [Tokenizer.new, withCrlf] using start
  have enough (text : String) : (Tokenizer.new text).rest.length < text.length + 1 := by
    simp [Tokenizer.new, String.length_toList]
  have loops := tokenizeLoop_lockstep clean aligned (enough input) (enough (withCrlf input))
  rw [tokenizeForParser, tokenizeForParser, Tokenizer.tokenize, Tokenizer.tokenize]
  rcases loops.elim with ⟨e, e', left, right⟩ | ⟨tokens, tokens', left, right, agree⟩
  · rw [left, right]
    exact .error
  · rw [left, right]
    have same := agree.same (by simp [Tokenizer.new, withCrlf]) (clear.words tokens left)
    exact .ok (List.rel_filter (fun _ _ related => by simp only [related.1]) same)

/-- Items with the same statement. -/
def SameItem (item item' : ScriptItemAst) : Prop := item.statement.erase = item'.statement.erase

theorem agree_parseChunk {chunk chunk' : ScriptChunk} (same : SameChunk input.toList chunk chunk')
    (raw : (⟨chunk.tokens, input.toList⟩ : Parser).RawOnLine) :
    Agree SameItem (parseChunk input.toList chunk) (parseChunk (Text.toCrlf input.toList) chunk') := by
  have alike : Alike input.toList ⟨chunk.tokens, input.toList⟩
      ⟨chunk'.tokens, Text.toCrlf input.toList⟩ := ⟨same, rfl, rfl⟩
  exact (alike.parseSingleStatement raw).bind fun _ _ statement => .ok statement

theorem erase_script {items items' : List ScriptItemAst} (same : List.Forall₂ SameItem items items')
    {span span' : Span} : (Ast.script items span).erase = (Ast.script items' span').erase := by
  simp only [Ast.erase, Ast.script.injEq, and_true]
  induction same with
  | nil => rfl
  | cons first _ ih => rw [List.map_cons, List.map_cons, ih, show _ = _ from first]

theorem parseTokens_crlf {tokens tokens' : List Spanned}
    (same : List.Forall₂ (SameToken input.toList) tokens tokens')
    (raw : ∀ chunk ∈ splitTopLevelStatements tokens input.toList,
      (⟨chunk.tokens, input.toList⟩ : Parser).RawOnLine) :
    Agree (fun ast ast' => Ast.erase ast = ast'.erase) (Parser.parseTokens tokens input.toList)
      (Parser.parseTokens tokens' (Text.toCrlf input.toList)) := by
  have split := @splitLoop_same input.toList [] [] [] [] tokens tokens' 0 same .nil .nil
  rw [Parser.parseTokens, Parser.parseTokens]
  rw [splitTopLevelStatements] at raw ⊢
  rw [splitTopLevelStatements]
  generalize splitLoop input.toList [] [] 0 tokens = chunks at raw split
  generalize splitLoop (Text.toCrlf input.toList) [] [] 0 tokens' = chunks' at split
  have items : Agree (List.Forall₂ SameItem) (chunks.mapM (parseChunk input.toList)) (chunks'.mapM (parseChunk (Text.toCrlf input.toList))) := by
    refine Agree.mapM ((List.forall₂_and_left _ _).mpr ⟨raw, split⟩) ?_
    rintro chunk chunk' ⟨onLine, same⟩
    exact agree_parseChunk same onLine
  cases split with
  | nil => exact .ok rfl
  | @cons chunk chunk' rest rest' first others =>
    cases others with
    | nil =>
      have alike : Alike input.toList ⟨chunk.tokens, input.toList⟩
          ⟨chunk'.tokens, Text.toCrlf input.toList⟩ := ⟨first, rfl, rfl⟩
      exact (alike.parseSingleStatement (raw chunk (by simp))).bind fun _ _ statement =>
        .ok (congrArg Ast.single statement)
    | cons second others =>
      exact items.bind fun items items' same => .ok (erase_script same)

/-- Where the line ends are clear, input is read alike under both line ends. -/
theorem parse_crlf (clean : Unquoted input.toList) (clear : LineEndsClear input) :
    Agree (fun ast ast' => Ast.erase ast = ast'.erase) (Parser.parse input)
      (Parser.parse (withCrlf input)) := by
  rw [Parser.parse, Parser.parse]
  rcases (tokenizeForParser_crlf clean clear).elim with
    ⟨e, e', left, right⟩ | ⟨tokens, tokens', left, right, same⟩
  · rw [left, right]
    exact .error
  · have text : (withCrlf input).toList = Text.toCrlf input.toList := String.toList_ofList
    rw [left, right, Parser.ok_bind, Parser.ok_bind, text]
    exact parseTokens_crlf same (clear.raw tokens left)

/-- The lines of the longer text end in a carriage return. -/
theorem splitInclusive_crlf (text : List Char) :
    splitInclusive (Text.toCrlf text) =
      (splitInclusive text).map fun (line, ended) => (line ++ if ended then ['\r'] else [], ended) := by
  induction text with
  | nil => rfl
  | cons c text ih =>
    by_cases feed : c = '\n'
    · subst feed
      rw [Text.toCrlf_lineFeed, splitInclusive_cons (by decide), splitInclusive, if_pos rfl, ih,
        splitInclusive, if_pos rfl]
      rfl
    · rw [Text.toCrlf_cons feed, splitInclusive_cons feed, splitInclusive_cons feed, ih]
      cases splitInclusive text with
      | nil => rfl
      | cons line lines => rfl

theorem mem_line_of_splitInclusive {text line : List Char} {ended : Bool}
    (member : (line, ended) ∈ splitInclusive text) : ∀ c ∈ line, c ∈ text := by
  induction text generalizing line ended with
  | nil => simp [splitInclusive] at member
  | cons d text ih =>
    by_cases feed : d = '\n'
    · rw [splitInclusive, if_pos feed] at member
      rcases List.mem_cons.mp member with is | later
      · obtain ⟨rfl, -⟩ := Prod.mk.inj is
        simp
      · exact fun c inside => List.mem_cons_of_mem _ (ih later c inside)
    · rw [splitInclusive_cons feed] at member
      split at member
      · obtain ⟨rfl, -⟩ : line = [d] ∧ ended = false := by simpa using member
        simp
      · next first isEnded lines lined =>
        rcases List.mem_cons.mp member with is | later
        · obtain ⟨rfl, -⟩ := Prod.mk.inj is
          intro c inside
          rcases List.mem_cons.mp inside with rfl | within
          · simp
          · exact List.mem_cons_of_mem _ (ih (lined ▸ List.mem_cons_self) c within)
        · exact fun c inside => List.mem_cons_of_mem _ (ih (lined ▸ List.mem_cons_of_mem _ later) c inside)

theorem normalizeLine_crlf {line : List Char} (fresh : '\r' ∉ line) (index : ℕ) (ended : Bool) :
    normalizeLine index (line ++ if ended then ['\r'] else []) = normalizeLine index line := by
  have none : Text.stripSuffix ['\r'] line = none := by
    rw [Text.stripSuffix, if_neg]
    intro suffix
    exact fresh ((List.isSuffixOf_iff_suffix.mp suffix).subset (by simp))
  cases ended with
  | false => simp
  | true => simp [normalizeLine, none, Text.stripSuffix_append]

/-- File scripts lose their carriage returns. -/
theorem normalizeFileScript_crlf {text : List Char} (fresh : '\r' ∉ text) :
    normalizeFileScript (Text.toCrlf text) = normalizeFileScript text := by
  rw [normalizeFileScript, normalizeFileScript, splitInclusive_crlf, List.zipIdx_map, List.map_map]
  congr 1
  refine List.map_congr_left ?_
  rintro ⟨⟨line, ended⟩, index⟩ member
  have inside : (line, ended) ∈ splitInclusive text := List.fst_mem_of_mem_zipIdx member
  have freshLine : '\r' ∉ line := fun within => fresh (mem_line_of_splitInclusive inside _ within)
  simp [normalizeLine_crlf freshLine]

end Input

end CueShell
