import CueShell.Proofs.ChainTokens
import CueShell.Proofs.CommentScans
import CueShell.Proofs.WordPieces

/-! # Words in single quotes

A word in single quotes passes the tokenizer and the parser unchanged, wherever it stands in a command.
What it was written with is not kept, so that it is expanded like any other word when its process is
spawned.
-/

namespace CueShell

open Tokenizer

section Expansion

variable {word : List Char} {pieces : List WordPiece}

/-- A word that is the same under every snapshot: it has no leading tilde, no escaped dollar and no
reference to a variable. -/
structure Literal (word : List Char) : Prop where
  tilde : word ≠ ['~']
  home : ¬ ['~', '/'] <+: word
  text : AllText (wordPieces word)

theorem Literal.expandTilde (literal : Literal word) (snapshot : Option EnvSnapshot) :
    expandTilde snapshot word = word := by
  have none : Text.stripPrefix ['~', '/'] word = none :=
    if_neg fun front => literal.home (List.isPrefixOf_iff_prefix.mp front)
  rw [CueShell.expandTilde]
  split
  · rfl
  · rw [if_neg literal.tilde, none]

theorem Literal.expandWord {word : String} (literal : Literal word.toList) (snapshot : Option EnvSnapshot) :
    expandWord snapshot word = word := by
  rw [CueShell.expandWord, literal.expandTilde, expandVars, literal.text.expand, rawText_wordPieces,
    String.ofList_toList]

/-- Without variables a piece does not get longer, and one that is not text gets shorter. -/
theorem WordPiece.expand_length (piece : WordPiece) (cwd : String) :
    (piece.expand (some ⟨[], cwd⟩)).length + (if piece.isText then 0 else 1) ≤ piece.raw.length := by
  cases piece with
  | text chars => exact Nat.le_refl _
  | escape => exact Nat.le_refl _
  | reference name braced => cases braced <;> simp [expand, raw, isText, lookupEnv, lookupKey]

theorem allText_of_expand (cwd : String) (same : expandVars (some ⟨[], cwd⟩) word = word) :
    AllText (wordPieces word) := by
  have shorter (pieces : List WordPiece) : (pieces.flatMap (WordPiece.expand (some ⟨[], cwd⟩))).length +
      pieces.countP (fun piece => !piece.isText) ≤ (rawText pieces).length := by
    induction pieces with
    | nil => exact Nat.le_refl _
    | cons piece pieces ih =>
      have first := piece.expand_length cwd
      rw [rawText] at ih
      rw [rawText, List.flatMap_cons, List.flatMap_cons, List.length_append, List.length_append,
        List.countP_cons]
      cases text : piece.isText <;> rw [text] at first <;>
        simp only [Bool.not_true, Bool.not_false, if_true, Bool.false_eq_true, if_false] at first ⊢ <;> omega
  have counted := shorter (wordPieces word)
  rw [expandVars] at same
  rw [rawText_wordPieces, same] at counted
  have none : (wordPieces word).countP (fun piece => !piece.isText) = 0 := by omega
  intro piece member
  simpa using List.countP_eq_zero.mp none piece member

/-- A word is the same under every snapshot exactly if it is literal. -/
theorem expandWord_eq_iff (word : String) :
    (∀ snapshot : EnvSnapshot, expandWord (some snapshot) word = word) ↔ Literal word.toList := by
  refine ⟨fun same => ?_, fun literal snapshot => literal.expandWord _⟩
  have bare : expandVars (some ⟨[], ""⟩) word.toList = word.toList := by
    have := congrArg String.toList (same ⟨[], ""⟩)
    rwa [expandWord, String.toList_ofList] at this
  -- with the root for a home, a tilde becomes a slash
  have rooted := congrArg String.toList (same ⟨[("HOME", "/")], ""⟩)
  rw [expandWord, String.toList_ofList] at rooted
  have home : lookupEnv (some ⟨[("HOME", "/")], ""⟩) "HOME" = some "/" := by decide
  refine ⟨fun tilde => ?_, fun ⟨rest, split⟩ => ?_, allText_of_expand "" bare⟩
  · have slash : expandTilde (some ⟨[("HOME", "/")], ""⟩) ['~'] = ['/'] := by decide
    rw [tilde, slash, expandVars_slash] at rooted
    simp at rooted
  · have stripped : Text.stripPrefix ['~', '/'] word.toList = some rest := by
      rw [← split]
      simp [Text.stripPrefix]
    have slashed : ∃ more, expandTilde (some ⟨[("HOME", "/")], ""⟩) word.toList = '/' :: more := by
      rw [expandTilde, home, stripped]
      dsimp only
      rw [if_neg (by simp [← split]), pathJoin]
      split_ifs with absolute
      · obtain ⟨more, rfl⟩ := List.head?_eq_some_iff.mp absolute
        exact ⟨more, rfl⟩
      · exact ⟨_, rfl⟩
      · exact ⟨_, rfl⟩
    obtain ⟨more, slashed⟩ := slashed
    rw [slashed, expandVars_slash, ← split] at rooted
    simp at rooted

end Expansion

section Reading

/-- A word in single quotes. -/
def singleQuote (word : String) : List Char := '\'' :: word.toList ++ ['\'']

theorem singleQuoted_whole {word : List Char} (fresh : '\'' ∉ word) (rest : List Char) :
    singleQuoted (word ++ '\'' :: rest) = some (word, rest) := by
  induction word with
  | nil => rfl
  | cons c word ih =>
    rw [List.mem_cons, not_or] at fresh
    rw [List.cons_append, singleQuoted, ih fresh.2]
    · rfl
    · exact fun quote => fresh.1 quote.symm

theorem readsAs_singleQuote {word : String} (fresh : '\'' ∉ word.toList) :
    ReadsAs (singleQuote word) (.word word) where
  visible := ⟨'\'', word.toList ++ ['\''], rfl, rfl⟩
  read := by
    intro t rest inside behind spaced shape
    have cons : t.rest = '\'' :: (word.toList ++ '\'' :: rest) := by simp [shape, singleQuote]
    refine ⟨.word word, ?_, rfl⟩
    rw [nextToken_single cons, tokenizeSingleQuotedString, singleQuoted_whole fresh]
    simp [singleQuote]

end Reading

section Command

/-- The processes of a chain, left to right. -/
def ChainNode.segments : ChainNode → List PipeSegment
  | .leaf plan => plan.pipelines.flatMap Pipeline.segments
  | .serial left _ right => left.segments ++ right.segments
  | .parallel left _ right => left.segments ++ right.segments

def Piece.asWord : Piece → Option String
  | .word text => some text
  | _ => none

theorem PipeSegment.words_pieces (segment : PipeSegment) :
    segment.pieces.filterMap Piece.asWord = segment.command := by
  have words : (segment.command.map Piece.word).filterMap Piece.asWord = segment.command := by
    rw [List.filterMap_map]
    exact List.filterMap_some
  have operator : (segment.pipeToNext.map Piece.pipe).toList.filterMap Piece.asWord = [] := by
    cases segment.pipeToNext <;> rfl
  rw [pieces, List.filterMap_append, words, operator, List.append_nil]

theorem Pipeline.words_pieces (pipeline : Pipeline) :
    pipeline.pieces.filterMap Piece.asWord = pipeline.segments.flatMap PipeSegment.command := by
  rw [pieces, List.filterMap_flatMap]
  exact congrArg (pipeline.segments.flatMap ·) (funext PipeSegment.words_pieces)

theorem JobPlan.words_pieces (plan : JobPlan) :
    plan.pieces.filterMap Piece.asWord =
      (plan.pipelines.flatMap Pipeline.segments).flatMap PipeSegment.command := by
  induction plan with
  | pipeline body => simp [pieces, pipelines, body.words_pieces]
  | and left right ihl ihr => simp [pieces, pipelines, ihl, ihr, List.filterMap_cons, Piece.asWord]
  | or left right ihl ihr => simp [pieces, pipelines, ihl, ihr, List.filterMap_cons, Piece.asWord]

/-- The words of a chain are the words of its processes. -/
theorem ChainNode.words_pieces (node : ChainNode) :
    node.pieces.filterMap Piece.asWord = node.segments.flatMap PipeSegment.command := by
  induction node with
  | leaf plan => exact plan.words_pieces
  | serial left op right ihl ihr => simp [pieces, segments, ihl, ihr, List.filterMap_cons, Piece.asWord]
  | parallel left op right ihl ihr => simp [pieces, segments, ihl, ihr, List.filterMap_cons, Piece.asWord]

/-- The arguments of all processes of a chain, the programs among them, under one snapshot. -/
def ChainNode.arguments (node : ChainNode) (snapshot : EnvSnapshot) : List String :=
  node.segments.flatMap fun segment => expandCommandLine (some snapshot) segment.command

theorem ChainNode.arguments_eq (node : ChainNode) (snapshot : EnvSnapshot) :
    node.arguments snapshot =
      (node.pieces.filterMap Piece.asWord).map (expandWord (some snapshot)) := by
  rw [node.words_pieces, List.map_flatMap]
  rfl

/-- Where a word stands in single quotes among the pieces of any chain, the chain is parsed with the
word, and under every snapshot the word is an argument of the process it belongs to. -/
def ReachesProcess (word : String) : Prop :=
  ∀ (node : ChainNode) (front back : List WrittenPiece) (extra : ℕ), node.Parsed →
    (∀ piece ∈ front ++ back, piece.Reads) →
    (front ++ ⟨extra, singleQuote word, .word word⟩ :: back).map WrittenPiece.piece = node.pieces →
    (∃ span, Parser.parse (commandText "run" (front ++ ⟨extra, singleQuote word, .word word⟩ :: back)) =
      .ok (.single (.command "run" [] (.chain node) span))) ∧
    ∀ snapshot, (node.arguments snapshot)[(front.filterMap fun piece => piece.piece.asWord).length]? =
      some word

/-- The argument that a word becomes. -/
theorem argument_eq {node : ChainNode} {front back : List WrittenPiece} {quoted : WrittenPiece}
    {word : String} (isWord : quoted.piece = .word word)
    (same : (front ++ quoted :: back).map WrittenPiece.piece = node.pieces) (snapshot : EnvSnapshot) :
    (node.arguments snapshot)[(front.filterMap fun piece => piece.piece.asWord).length]? =
      some (expandWord (some snapshot) word) := by
  have split : node.pieces.filterMap Piece.asWord =
      (front.filterMap fun piece => piece.piece.asWord) ++
        word :: back.filterMap fun piece => piece.piece.asWord := by
    rw [← same, List.filterMap_map, List.filterMap_append]
    simp [isWord, Piece.asWord, Function.comp_def]
  rw [node.arguments_eq, split, List.getElem?_map, List.getElem?_append_right (Nat.le_refl _),
    Nat.sub_self]
  rfl

/-- As the only word behind the program `true`. -/
theorem ReachesProcess.expandWord {word : String} (reaches : ReachesProcess word) (snapshot : EnvSnapshot) :
    expandWord (some snapshot) word = word := by
  have reads : WrittenPiece.Reads ⟨0, "true".toList, .word "true"⟩ :=
    @Piece.Plain.reads (.word "true") (show plainWord "true".toList = true by decide)
  have parsed : (ChainNode.leaf (.simple ["true", word])).Parsed :=
    .operand (.operand (.operand (fun _ => by simp)))
  have arrived := (reaches (.leaf (.simple ["true", word])) [⟨0, "true".toList, .word "true"⟩] [] 0
    parsed (by simpa using reads) rfl).2 snapshot
  have expanded := @argument_eq (.leaf (.simple ["true", word])) [⟨0, "true".toList, .word "true"⟩] []
    ⟨0, singleQuote word, .word word⟩ word rfl rfl snapshot
  exact Option.some_inj.mp (expanded.symm.trans arrived)

end Command

end CueShell
