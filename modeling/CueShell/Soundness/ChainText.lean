import CueShell.Proofs.ChainStatements
import CueShell.Proofs.ChainTokens
import CueShell.Proofs.StatementChunks
import Mathlib.Algebra.Order.BigOperators.Group.List
import Mathlib.Algebra.Order.Ring.Nat

/-! # Reading a chain back from its text

Stored crons, chain records and `:retry` keep a chain as its printed text only. Reading that text
back yields the same chain exactly if every word of it is plain: printing does not quote.
-/

namespace CueShell

/-- Every word of the chain is plain. -/
def ChainNode.PlainWords (node : ChainNode) : Prop := ∀ piece ∈ node.pieces, piece.Plain

instance : DecidablePred Piece.Plain
  | .word text => inferInstanceAs (Decidable (plainWord text.toList = true))
  | .pipe _ | .and | .or | .parallel _ | .serial _ => isTrue trivial

instance : DecidablePred ChainNode.PlainWords :=
  fun node => inferInstanceAs (Decidable (∀ piece ∈ node.pieces, piece.Plain))

section Sources

variable {node : ChainNode}

theorem Spells.piecesOf {tokens : List Spanned} {pieces : List Piece} (spells : Spells tokens pieces) :
    piecesOf tokens = pieces := by
  have mapped := congrArg (List.filterMap id) spells
  simpa [CueShell.piecesOf, List.filterMap_map, Function.comp_def] using mapped

theorem ink_spread (pieces : List SpacedPiece) : ink (spread pieces) = inkOf (pieces.map Prod.snd) := by
  induction pieces with
  | nil => rfl
  | cons head pieces ih =>
    obtain ⟨extra, piece⟩ := head
    rw [spread_cons, ink_append, ink_append, ink_replicate, ih]
    simp [inkOf]

theorem inkOf_le_of_sublist {pieces others : List Piece} (part : pieces.Sublist others) :
    inkOf pieces ≤ inkOf others :=
  (part.map _).sum_le_sum fun _ _ => Nat.zero_le _

/-- What a successful `parseChainText` has done. -/
theorem parseChainText_eq_some {text : String} (found : parseChainText text = some node) :
    ∃ statement, Parser.parse (":run " ++ text) = .ok (.single statement) ∧
      statement.argument = .chain node := by
  rw [parseChainText] at found
  split at found
  · next chain params command =>
    obtain rfl : chain = node := by simpa using found
    rw [parseCommand] at command
    split at command
    · simp at command
    · next ast parsed =>
      cases ast with
      | script items span =>
        obtain ⟨result, -, resolved⟩ := Option.map_eq_some_iff.mp command
        cases result <;> simp [Except.map] at resolved
      | single statement =>
        refine ⟨statement, parsed, ?_⟩
        obtain ⟨result, inner, resolved⟩ := Option.map_eq_some_iff.mp command
        cases result with
        | error e => simp [Except.map] at resolved
        | ok single =>
          obtain rfl : single = .run chain params := by simpa [Except.map] using resolved
          cases statement with
          | command name modeParams argument span =>
            rcases resolveCommand_chain inner rfl with ⟨rfl, -⟩ | ⟨whole, _, schedule, -, cron, -⟩
            · rfl
            · simp at cron
          | bareInput argument span =>
            simp only [Resolver.resolveStatement, Resolver.resolveBare, Option.some.injEq] at inner
            split_ifs at inner
            · simp at inner
            · split at inner <;> simp_all [Statement.argument]
  · simp at found

/-- The tokens of the chain come from the text behind the command name. -/
theorem pieces_sublist (parsed : node.Parsed) (found : parseChainText node.display = some node) :
    ∃ tokens, Tokenizer.tokenizeLoop (":run " ++ node.display).length
        ⟨spread node.spaced, some 'n', 4, some .command, false⟩ = .ok tokens ∧
      node.pieces.Sublist (piecesOf tokens) := by
  obtain ⟨statement, parse, chain⟩ := parseChainText_eq_some found
  rw [Parser.parse, tokenizeForParser, tokenize_run parsed] at parse
  cases loop : Tokenizer.tokenizeLoop (":run " ++ node.display).length
      ⟨spread node.spaced, some 'n', 4, some .command, false⟩ with
  | error e =>
    rw [loop] at parse
    simp [bind, Except.bind] at parse
  | ok tokens =>
    refine ⟨tokens, rfl, ?_⟩
    have visible : runToken.token.isWhitespace = false := rfl
    rw [loop, Parser.ok_bind] at parse
    simp only [List.filter_cons, visible, Bool.not_false, if_true, Parser.ok_bind] at parse
    generalize rest : tokens.filter (fun spanned => !spanned.token.isWhitespace) = kept at parse
    have keptPart : kept.Sublist tokens := rest ▸ List.filter_sublist
    suffices fronted : ∃ front, Spells front node.pieces ∧ front.Sublist kept by
      obtain ⟨front, spells, part⟩ := fronted
      rw [← spells.piecesOf]
      exact (part.trans keptPart).filterMap _
    rw [Parser.parseTokens] at parse
    split at parse
    · simp only [Except.ok.injEq, Ast.single.injEq] at parse
      simp [← parse, Statement.argument] at chain
    · next chunk only =>
      obtain ⟨found', inner, same⟩ := Parser.bind_eq_ok.mp parse
      obtain rfl : found' = statement := by simpa using same
      obtain ⟨-, front, spells, part, behind⟩ := Parser.parseSingleStatement_chain inner chain
      have inside : chunk ∈ splitTopLevelStatements (runToken :: kept) (":run " ++ node.display).toList := by
        rw [only]
        exact List.mem_singleton_self _
      have source : chunk.tokens.Sublist (runToken :: kept) :=
        (chunk_sublist inside).trans List.filter_sublist
      refine ⟨front, spells, ?_⟩
      rcases List.sublist_cons_iff.mp source with later | ⟨others, first, later⟩
      · exact part.trans later
      · have command := behind "run" (by simp [Parser.peek, first, runToken])
        rw [first] at command
        exact command.trans later
    · obtain ⟨items, -, same⟩ := Parser.bind_eq_ok.mp parse
      simp at same

theorem plain_of_parseChainText (parsed : node.Parsed) (found : parseChainText node.display = some node) :
    node.PlainWords := by
  obtain ⟨tokens, loop, part⟩ := pieces_sublist parsed found
  obtain ⟨below, plain⟩ := tokenizeLoop_ink loop
  rw [ink_spread, ChainNode.spaced_snd] at below plain
  exact fun piece member => plain (inkOf_le_of_sublist part) piece (part.subset member)

end Sources

/-- A chain that the parser produces is read back from its text exactly if its words are plain. -/
theorem ChainNode.parseChainText_display_iff {node : ChainNode} (produced : node.Produced) :
    parseChainText node.display = some node ↔ node.PlainWords :=
  ⟨plain_of_parseChainText produced.parsed, parseChainText_of_plain produced.parsed⟩

theorem ChainNode.parseChainText_display_pipeline :
    parseChainText "cat notes |> sort -r -> echo :done" =
      some (.serial (.leaf (.pipeline ⟨[⟨["cat", "notes"], some .stdout⟩, ⟨["sort", "-r"], none⟩]⟩))
        .andThen (.leaf (.simple ["echo", ":done"]))) :=
  (ChainNode.parseChainText_display_iff ⟨.single (.run (.serial (.leaf (.pipeline
    ⟨[⟨["cat", "notes"], some .stdout⟩, ⟨["sort", "-r"], none⟩]⟩)) .andThen
      (.leaf (.simple ["echo", ":done"]))) {}),
    .inl ⟨"cat notes |> sort -r -> echo :done", .job, by decide⟩, _, List.mem_singleton_self _, rfl⟩).mpr
    (by decide)

/-- A quoted blank is lost: the stored text of `echo 'a b'` is read back as two arguments. -/
theorem ChainNode.display_loses_quotes :
    (ChainNode.leaf (.simple ["echo", "a b"])).Produced ∧
      parseChainText (ChainNode.leaf (.simple ["echo", "a b"])).display =
        some (.leaf (.simple ["echo", "a", "b"])) := by
  refine ⟨⟨.single (.run (.leaf (.simple ["echo", "a b"])) {}), .inl ⟨":run echo 'a b'", .job, ?_⟩, _,
    List.mem_singleton_self _, rfl⟩, ?_⟩
  · decide
  · decide

end CueShell
