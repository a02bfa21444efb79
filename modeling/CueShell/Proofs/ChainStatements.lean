import CueShell.Model.Parser.Resolver
import CueShell.Proofs.ChainGrammar

/-! # Chains in parsed commands

Every chain of a resolved command comes from the chain parser, possibly after a cron schedule has
been taken off its front, so it is nested the way the grammar says.
-/

namespace CueShell

def Statement.argument : Statement → Argument
  | .command _ _ argument _ => argument
  | .bareInput argument _ => argument

/-- The chain a command launches or schedules. -/
def SingleCommand.chain : SingleCommand → Option ChainNode
  | .run chain _ => some chain
  | .cron _ chain _ => some chain
  | _ => none

def ResolvedCommand.commands : ResolvedCommand → List SingleCommand
  | .script _ _ items => items.map ResolvedScriptItem.command
  | .single command => [command]

/-- The parser accepts the command from some input: typed in some mode, or a file script. -/
def Accepted (command : ResolvedCommand) : Prop :=
  (∃ input mode, parseCommand input mode = some (.ok command)) ∨
    ∃ input, parseFileScriptCommand input = some (.ok command)

/-- The parser produces the chain from some accepted input. -/
def ChainNode.Produced (node : ChainNode) : Prop :=
  ∃ command, Accepted command ∧ ∃ single ∈ command.commands, single.chain = some node

namespace Parser

variable {p p' : Parser} {node : ChainNode} {name : String}

theorem advance_suffix (p : Parser) : p.advance.tokens <:+ p.tokens := List.tail_suffix _

theorem expect_suffix {expected : Token} (parsed : p.expect expected = .ok p') :
    p'.tokens <:+ p.tokens := by
  rw [expect] at parsed
  split_ifs at parsed
  · simp only [Except.ok.injEq] at parsed
    exact parsed ▸ p.advance_suffix
  · simp [fail] at parsed

theorem parseParamValue_suffix {value : Value} (parsed : p.parseParamValue = .ok (value, p')) :
    p'.tokens <:+ p.tokens := by
  rw [parseParamValue] at parsed
  split at parsed
  · simp only [Except.ok.injEq, Prod.mk.injEq] at parsed
    exact parsed.2 ▸ p.advance_suffix
  · simp only [Except.ok.injEq, Prod.mk.injEq] at parsed
    exact parsed.2 ▸ p.advance_suffix
  · simp [fail] at parsed

theorem parseNeedParam_suffix {key suffix : String} {span : Span} {param : String × Value}
    (parsed : p.parseNeedParam name key suffix span = .ok (param, p')) : p'.tokens <:+ p.tokens := by
  rw [parseNeedParam] at parsed
  split_ifs at parsed
  obtain ⟨p₁, expected, parsed⟩ := bind_eq_ok.mp parsed
  obtain ⟨⟨value, p₂⟩, found, parsed⟩ := bind_eq_ok.mp parsed
  have whole := (parseParamValue_suffix found).trans (expect_suffix expected)
  dsimp only at parsed
  split at parsed
  · simp only [Except.ok.injEq, Prod.mk.injEq] at parsed
    exact parsed.2 ▸ whole
  · simp at parsed

theorem parseTableParam_suffix {key : String} {span : Span} {param : String × Value}
    (parsed : p.parseTableParam name key span = .ok (param, p')) : p'.tokens <:+ p.tokens := by
  rw [parseTableParam] at parsed
  split at parsed
  · simp at parsed
  · split at parsed
    · simp at parsed
    · obtain ⟨p₁, expected, parsed⟩ := bind_eq_ok.mp parsed
      obtain ⟨⟨value, p₂⟩, found, parsed⟩ := bind_eq_ok.mp parsed
      obtain ⟨-, -, parsed⟩ := bind_eq_ok.mp parsed
      simp only [Except.ok.injEq, Prod.mk.injEq] at parsed
      exact parsed.2 ▸ (parseParamValue_suffix found).trans (expect_suffix expected)

/-- Mode parameters are taken off the front. -/
theorem parseModeParams_suffix {fuel : ℕ} {params result : List (String × Value)}
    (parsed : parseModeParams name fuel params p = .ok (result, p')) : p'.tokens <:+ p.tokens := by
  induction fuel generalizing params p with
  | zero =>
    simp only [parseModeParams, Except.ok.injEq, Prod.mk.injEq] at parsed
    exact parsed.2 ▸ List.suffix_refl _
  | succ fuel ih =>
    rw [parseModeParams] at parsed
    split at parsed
    · simp only [Except.ok.injEq, Prod.mk.injEq] at parsed
      exact parsed.2 ▸ p.advance_suffix
    · simp [fail] at parsed
    · exact (ih parsed).trans p.advance_suffix
    · dsimp only at parsed
      split at parsed
      · obtain ⟨⟨param, p₁⟩, found, loop⟩ := bind_eq_ok.mp parsed
        exact ((ih loop).trans (parseNeedParam_suffix found)).trans p.advance_suffix
      · obtain ⟨⟨param, p₁⟩, found, loop⟩ := bind_eq_ok.mp parsed
        exact ((ih loop).trans (parseTableParam_suffix found)).trans p.advance_suffix
    · simp [fail] at parsed

theorem parseArgumentForCommand_chain {spec : CommandSpec}
    (parsed : p.parseArgumentForCommand name spec = .ok (.chain node, p')) :
    p.parseChain = .ok (node, p') := by
  rw [parseArgumentForCommand] at parsed
  split at parsed
  · split_ifs at parsed
    · simp [fail] at parsed
    · obtain ⟨⟨chain, p₁⟩, found, parsed⟩ := bind_eq_ok.mp parsed
      simpa [found] using parsed
  · split_ifs at parsed
    · simp [fail] at parsed
    · obtain ⟨⟨chain, p₁⟩, found, parsed⟩ := bind_eq_ok.mp parsed
      simpa [found] using parsed
  · obtain ⟨⟨⟨kind, number⟩, p₁⟩, -, parsed⟩ := bind_eq_ok.mp parsed
    dsimp only at parsed
    split at parsed
    · split at parsed <;> simp at parsed
    · simp at parsed
  · obtain ⟨⟨⟨kind, number⟩, p₁⟩, -, parsed⟩ := bind_eq_ok.mp parsed
    simp at parsed
  · dsimp only at parsed
    split_ifs at parsed <;> simp [fail] at parsed
  · obtain ⟨-, -, parsed⟩ := bind_eq_ok.mp parsed
    dsimp only at parsed
    split_ifs at parsed
    · simp [fail] at parsed
    · simp at parsed
  · split at parsed
    · obtain ⟨-, -, parsed⟩ := bind_eq_ok.mp parsed
      simp at parsed
    · simp at parsed
  · simp at parsed
  · dsimp only at parsed
    split_ifs at parsed <;> simp at parsed

/-- What a command is parsed from: its mode parameters, if there are any, and its argument. -/
theorem parseCommand_ok {start : ℕ} {statement : Statement}
    (parsed : p.parseCommand name start = .ok (statement, p')) :
    ∃ spec params p₁ argument span, statement = .command name params argument span ∧
      (params = [] ∧ p₁ = p.advance ∨
        p.advance.advance.parseModeParams name (p.advance.tokens.length + 1) [] = .ok (params, p₁)) ∧
      p₁.parseArgumentForCommand name spec = .ok (argument, p') := by
  rw [parseCommand] at parsed
  dsimp only at parsed
  obtain ⟨spec, -, parsed⟩ := bind_eq_ok.mp parsed
  split_ifs at parsed
  · obtain ⟨⟨params, p₁⟩, inside, parsed⟩ := bind_eq_ok.mp parsed
    obtain ⟨⟨argument, p₂⟩, found, parsed⟩ := bind_eq_ok.mp parsed
    simp only [Except.ok.injEq, Prod.mk.injEq] at parsed
    obtain ⟨rfl, rfl⟩ := parsed
    exact ⟨spec, params, p₁, argument, _, rfl, .inr inside, found⟩
  · simp [fail, bind, Except.bind] at parsed
  · rw [ok_bind] at parsed
    obtain ⟨⟨argument, p₂⟩, found, parsed⟩ := bind_eq_ok.mp parsed
    simp only [Except.ok.injEq, Prod.mk.injEq] at parsed
    obtain ⟨rfl, rfl⟩ := parsed
    exact ⟨spec, [], p.advance, argument, _, rfl, .inl ⟨rfl, rfl⟩, found⟩

/-- Where the chain of a statement comes from. -/
theorem parseStatement_chain {statement : Statement} (parsed : p.parseStatement = .ok (statement, p'))
    (chain : statement.argument = .chain node) :
    node.Parsed ∧ ∃ front, Spells front node.pieces ∧ front.Sublist p.tokens ∧
      ∀ name, p.peek = .command name → front.Sublist p.tokens.tail := by
  have source : ∃ p₁ : Parser, p₁.parseChain = .ok (node, p') ∧ p₁.tokens <:+ p.tokens ∧
      ∀ name, p.peek = .command name → p₁.tokens <:+ p.tokens.tail := by
    rw [parseStatement] at parsed
    dsimp only at parsed
    split at parsed
    · next name found =>
      obtain ⟨spec, params, p₁, argument, span, rfl, origin, found'⟩ := parseCommand_ok parsed
      obtain rfl : argument = .chain node := chain
      rcases origin with ⟨-, rfl⟩ | inside
      · exact ⟨p.advance, parseArgumentForCommand_chain found', p.advance_suffix,
          fun _ _ => List.suffix_refl _⟩
      · have suffix := (parseModeParams_suffix inside).trans p.advance.advance_suffix
        exact ⟨p₁, parseArgumentForCommand_chain found', suffix.trans p.advance_suffix, fun _ _ => suffix⟩
    · next found =>
      simp only [Except.ok.injEq, Prod.mk.injEq] at parsed
      simp [← parsed.1, Statement.argument] at chain
    · next bare _ =>
      obtain ⟨⟨node', p₁⟩, found, parsed⟩ := bind_eq_ok.mp parsed
      simp only [Except.ok.injEq, Prod.mk.injEq] at parsed
      obtain ⟨rfl, rfl⟩ := parsed
      obtain rfl : node' = node := by simpa [Statement.argument] using chain
      exact ⟨p, found, List.suffix_refl _, fun name eq => (bare name eq).elim⟩
  obtain ⟨p₁, found, suffix, behind⟩ := source
  obtain ⟨front, split, -, spells, good⟩ := parseChain_reads _ _ _ found
  have part : front.Sublist p₁.tokens := by
    rw [split]
    exact List.sublist_append_left _ _
  exact ⟨good, front, spells, part.trans suffix.sublist, fun name eq => part.trans (behind name eq).sublist⟩

theorem parseSingleStatement_chain {statement : Statement}
    (parsed : p.parseSingleStatement = .ok statement) (chain : statement.argument = .chain node) :
    node.Parsed ∧ ∃ front, Spells front node.pieces ∧ front.Sublist p.tokens ∧
      ∀ name, p.peek = .command name → front.Sublist p.tokens.tail := by
  rw [parseSingleStatement] at parsed
  obtain ⟨⟨found, p₁⟩, inner, parsed⟩ := bind_eq_ok.mp parsed
  dsimp only at parsed
  split_ifs at parsed
  · simp only [Except.ok.injEq] at parsed
    subst parsed
    exact parseStatement_chain inner chain
  · simp [fail] at parsed

end Parser

section Schedule

variable {words : List String} {span : Span} {schedule : CronScheduleAst} {consumed : ℕ}

theorem requireWord_ok {index : ℕ} {message suggestion word : String}
    (found : requireWord words index span message suggestion = .ok word) : index < words.length := by
  rw [requireWord] at found
  split at found
  · next inside => exact (List.getElem?_eq_some_iff.mp inside).1
  · simp [cronError] at found

theorem requireDuration_ok {keyword suggestion : String} {duration : Duration}
    (found : requireDuration words span keyword suggestion = .ok duration) : 1 < words.length := by
  rw [requireDuration] at found
  split at found
  · next inside =>
    obtain ⟨word, second, -⟩ := Option.bind_eq_some_iff.mp inside
    exact (List.getElem?_eq_some_iff.mp second).1
  · simp [cronError] at found

/-- A schedule takes no more words than there are. -/
theorem parseScheduleWords_le (found : parseScheduleWords words span = .ok (schedule, consumed)) :
    consumed ≤ words.length := by
  rw [parseScheduleWords] at found
  split at found
  · simp [cronError] at found
  · next keyword first =>
    have some := (List.getElem?_eq_some_iff.mp first).1
    split_ifs at found
    · obtain ⟨period, duration, found⟩ := Parser.bind_eq_ok.mp found
      simp only [Except.ok.injEq, Prod.mk.injEq] at found
      exact found.2 ▸ requireDuration_ok duration
    · obtain ⟨time, -, found⟩ := Parser.bind_eq_ok.mp found
      obtain ⟨days, fourth, found⟩ := Parser.bind_eq_ok.mp found
      simp only [Except.ok.injEq, Prod.mk.injEq] at found
      exact found.2 ▸ requireWord_ok fourth
    · obtain ⟨time, second, found⟩ := Parser.bind_eq_ok.mp found
      simp only [Except.ok.injEq, Prod.mk.injEq] at found
      exact found.2 ▸ requireWord_ok second
    · obtain ⟨days, -, found⟩ := Parser.bind_eq_ok.mp found
      obtain ⟨time, fourth, found⟩ := Parser.bind_eq_ok.mp found
      simp only [Except.ok.injEq, Prod.mk.injEq] at found
      exact found.2 ▸ requireWord_ok fourth
    · obtain ⟨days, -, found⟩ := Parser.bind_eq_ok.mp found
      simp [cronError] at found
    · obtain ⟨after, duration, found⟩ := Parser.bind_eq_ok.mp found
      simp only [Except.ok.injEq, Prod.mk.injEq] at found
      exact found.2 ▸ requireDuration_ok duration
    · simp [cronError] at found
    · next enough =>
      simp only [Except.ok.injEq, Prod.mk.injEq] at found
      exact found.2 ▸ Nat.le_of_not_lt enough
    · simp only [Except.ok.injEq, Prod.mk.injEq] at found
      exact found.2 ▸ some
    · rw [parseDoSchedule] at found
      split at found
      · next index isDo =>
        split_ifs at found
        · simp [cronError] at found
        · simp only [Except.ok.injEq, Prod.mk.injEq] at found
          obtain ⟨bound, -⟩ := List.findIdx?_eq_some_iff_getElem.mp isDo
          exact found.2 ▸ bound
        · simp [cronError] at found
      · simp [cronError] at found

theorem parseBareCronSchedule_le
    (found : parseBareCronSchedule words span = .ok (schedule, consumed)) :
    consumed ≤ words.length := by
  rw [parseBareCronSchedule] at found
  obtain ⟨⟨ast, taken⟩, inner, found⟩ := Parser.bind_eq_ok.mp found
  simp only [Except.ok.injEq, Prod.mk.injEq] at found
  obtain ⟨-, rfl⟩ := found
  have below := parseScheduleWords_le inner
  split_ifs with isDo
  · exact (List.getElem?_eq_some_iff.mp isDo).1
  · exact below

theorem JobPlan.IsPipeline.setFirst {plan : JobPlan} (parsed : plan.IsPipeline) (nonempty : words ≠ []) :
    (plan.setFirstCommand words).IsPipeline := by
  match plan with
  | .pipeline ⟨[]⟩ => exact parsed
  | .pipeline ⟨[segment]⟩ => exact fun _ => nonempty
  | .pipeline ⟨segment :: next :: rest⟩ => exact parsed

theorem JobPlan.Parsed.setFirst {plan : JobPlan} (parsed : plan.Parsed) (nonempty : words ≠ []) :
    (plan.setFirstCommand words).Parsed := by
  induction parsed with
  | operand isPipeline => exact .operand (isPipeline.setFirst nonempty)
  | combine op _ isPipeline ih =>
    cases op with
    | and => exact ih.combine .and isPipeline
    | or => exact ih.combine .or isPipeline

theorem ChainNode.IsJob.setLeftmost {node : ChainNode} (parsed : node.IsJob) (nonempty : words ≠ []) :
    (node.setLeftmostCommandWords words).IsJob := by
  cases node with
  | leaf plan => exact JobPlan.Parsed.setFirst parsed nonempty
  | serial left op right => exact parsed
  | parallel left op right => exact parsed

theorem ChainNode.IsParallel.setLeftmost {node : ChainNode} (parsed : node.IsParallel)
    (nonempty : words ≠ []) : (node.setLeftmostCommandWords words).IsParallel := by
  induction parsed with
  | operand isJob => exact .operand (isJob.setLeftmost nonempty)
  | combine op _ isJob ih => exact ih.combine op isJob

/-- Replacing the words at the front of a chain by others keeps it in the grammar. -/
theorem ChainNode.Parsed.setLeftmost {node : ChainNode} (parsed : node.Parsed) (nonempty : words ≠ []) :
    (node.setLeftmostCommandWords words).Parsed := by
  induction parsed with
  | operand isParallel => exact .operand (isParallel.setLeftmost nonempty)
  | combine op _ isParallel ih => exact ih.combine op isParallel

/-- The body of a cron command is nested like the chain it is taken from. -/
theorem resolveCron_parsed {chain body : ChainNode} {params params' : ModeParams} {cron : CronSchedule}
    (parsed : chain.Parsed) (found : resolveCron chain params span = .ok (.cron cron body params')) :
    body.Parsed := by
  rw [resolveCron] at found
  obtain ⟨⟨ast, rest⟩, split, found⟩ := Parser.bind_eq_ok.mp found
  dsimp only at found
  split at found
  · simp only [Except.ok.injEq, SingleCommand.cron.injEq] at found
    obtain ⟨-, rfl, -⟩ := found
    rw [splitBareCronChain] at split
    split at split
    · simp [cronError] at split
    · next words front =>
      obtain ⟨⟨ast', consumed⟩, schedule, split⟩ := Parser.bind_eq_ok.mp split
      dsimp only at split
      split_ifs at split with all
      · simp [cronError] at split
      · simp only [Except.ok.injEq, Prod.mk.injEq] at split
        obtain ⟨-, rfl⟩ := split
        have below := parseBareCronSchedule_le schedule
        refine parsed.setLeftmost ?_
        rw [ne_eq, List.drop_eq_nil_iff]
        omega
  · simp [cronError] at found

end Schedule

section Resolve

variable {node : ChainNode}

theorem chain_of_silent {α : Type} {result : Except ParseError α} {build : α → SingleCommand}
    {command : SingleCommand} (silent : ∀ a, (build a).chain = none)
    (found : some (result.map build) = some (.ok command)) (chain : command.chain = some node) :
    False := by
  cases result with
  | error e => simp [Except.map] at found
  | ok a =>
    obtain rfl : build a = command := by simpa [Except.map] using found
    simp [silent] at chain

theorem chain_of_quiet {quiet command : SingleCommand} (silent : quiet.chain = none)
    (found : some (.ok quiet) = (some (.ok command) : Option (Except ParseError SingleCommand)))
    (chain : command.chain = some node) : False := by
  obtain rfl : quiet = command := by simpa using found
  simp [silent] at chain

theorem resolveCron_chain {whole : ChainNode} {params : ModeParams} {span : Span}
    {command : SingleCommand} (found : resolveCron whole params span = .ok command)
    (chain : command.chain = some node) : ∃ schedule, command = .cron schedule node params := by
  rw [resolveCron] at found
  obtain ⟨⟨ast, rest⟩, -, found⟩ := Parser.bind_eq_ok.mp found
  dsimp only at found
  split at found
  · next schedule _ =>
    simp only [Except.ok.injEq] at found
    subst found
    obtain rfl : rest = node := by simpa [SingleCommand.chain] using chain
    exact ⟨schedule, rfl⟩
  · simp [cronError] at found

theorem resolveCommand_chain {name : String} {modeParams : List (String × Value)} {argument : Argument}
    {span : Span} {command : SingleCommand}
    (found : Resolver.resolveCommand name modeParams argument span = some (.ok command))
    (chain : command.chain = some node) :
    (argument = .chain node ∧ ∃ params, command = .run node params) ∨
      ∃ whole params schedule, argument = .chain whole ∧ command = .cron schedule node params ∧
        resolveCron whole params span = .ok command := by
  unfold Resolver.resolveCommand at found
  dsimp only at found
  split at found
  · next whole =>
    simp only [Option.some.injEq, Except.ok.injEq] at found
    subst found
    obtain rfl : whole = node := by simpa [SingleCommand.chain] using chain
    exact .inl ⟨rfl, _, rfl⟩
  · next whole =>
    simp only [Option.some.injEq] at found
    obtain ⟨schedule, rfl⟩ := resolveCron_chain found chain
    exact .inr ⟨whole, _, schedule, rfl, rfl, found⟩
  all_goals first
    | exact (chain_of_silent (fun _ => rfl) found chain).elim
    | exact (chain_of_quiet rfl found chain).elim
    | simp at found

theorem resolveStatement_parsed {mode : Mode} {statement : Statement} {command : SingleCommand}
    (found : Resolver.resolveStatement mode statement = some (.ok command))
    (chain : command.chain = some node)
    (source : ∀ whole, statement.argument = .chain whole → whole.Parsed) : node.Parsed := by
  cases statement with
  | command name modeParams argument span =>
    rcases resolveCommand_chain found chain with
      ⟨rfl, -⟩ | ⟨whole, params, schedule, rfl, rfl, cron⟩
    · exact source node rfl
    · exact resolveCron_parsed (source whole rfl) cron
  | bareInput argument span =>
    simp only [Resolver.resolveStatement, Resolver.resolveBare, Option.some.injEq] at found
    split_ifs at found
    · simp only [Except.ok.injEq] at found
      simp [← found, SingleCommand.chain] at chain
    · split at found
      · next whole _ =>
        simp only [Except.ok.injEq] at found
        subst found
        obtain rfl : whole = node := by simpa [SingleCommand.chain] using chain
        exact source whole rfl
      · simp at found
      · simp at found
      · next whole _ =>
        obtain ⟨schedule, rfl⟩ := resolveCron_chain found chain
        exact resolveCron_parsed (source whole rfl) found
      · simp at found
      · simp at found

def Ast.statements : Ast → List Statement
  | .script items _ => items.map ScriptItemAst.statement
  | .single statement => [statement]

theorem resolveItems_source {mode : Mode} {items : List ScriptItemAst} {resolved : List ResolvedScriptItem}
    (found : Resolver.resolveItems mode items = some (.ok resolved)) :
    ∀ item ∈ resolved, ∃ source ∈ items,
      Resolver.resolveStatement mode source.statement = some (.ok item.command) := by
  induction items generalizing resolved with
  | nil =>
    simp only [Resolver.resolveItems, Option.some.injEq, Except.ok.injEq] at found
    simp [← found]
  | cons head items ih =>
    rw [Resolver.resolveItems] at found
    split at found
    · simp at found
    · simp at found
    · next command first =>
      obtain ⟨rest, inner, found⟩ := Option.map_eq_some_iff.mp found
      cases rest with
      | error e => simp [Except.map] at found
      | ok rest =>
        simp only [Except.map, Except.ok.injEq] at found
        subst found
        refine List.forall_mem_cons.mpr ⟨⟨head, by simp, first⟩, fun item member => ?_⟩
        obtain ⟨source, inside, resolves⟩ := ih inner item member
        exact ⟨source, List.mem_cons_of_mem _ inside, resolves⟩

theorem resolve_source {mode : Mode} {ast : Ast} {command : ResolvedCommand}
    (found : Resolver.resolve mode ast = some (.ok command)) {single : SingleCommand}
    (member : single ∈ command.commands) :
    ∃ statement ∈ ast.statements, Resolver.resolveStatement mode statement = some (.ok single) := by
  cases ast with
  | script items span =>
    obtain ⟨result, inner, found⟩ := Option.map_eq_some_iff.mp found
    cases result with
    | error e => simp [Except.map] at found
    | ok resolved =>
      simp only [Except.map, Except.ok.injEq] at found
      subst found
      obtain ⟨item, inside, rfl⟩ := List.mem_map.mp member
      obtain ⟨source, sourceInside, resolves⟩ := resolveItems_source inner item inside
      exact ⟨source.statement, List.mem_map_of_mem sourceInside, resolves⟩
  | single statement =>
    obtain ⟨result, inner, found⟩ := Option.map_eq_some_iff.mp found
    cases result with
    | error e => simp [Except.map] at found
    | ok resolved =>
      simp only [Except.map, Except.ok.injEq] at found
      subst found
      obtain rfl : single = resolved := List.mem_singleton.mp member
      exact ⟨statement, List.mem_singleton_self _, inner⟩

theorem mapM_ok {ε α β : Type} {f : α → Except ε β} {inputs : List α} {outputs : List β}
    (found : inputs.mapM f = .ok outputs) : ∀ output ∈ outputs, ∃ input ∈ inputs, f input = .ok output := by
  induction inputs generalizing outputs with
  | nil =>
    simp only [List.mapM_nil, pure, Except.pure, Except.ok.injEq] at found
    simp [← found]
  | cons input inputs ih =>
    rw [List.mapM_cons] at found
    obtain ⟨first, head, found⟩ := Parser.bind_eq_ok.mp found
    obtain ⟨rest, tail, found⟩ := Parser.bind_eq_ok.mp found
    simp only [pure, Except.pure, Except.ok.injEq] at found
    subst found
    refine List.forall_mem_cons.mpr ⟨⟨input, by simp, head⟩, fun output member => ?_⟩
    obtain ⟨source, inside, same⟩ := ih tail output member
    exact ⟨source, List.mem_cons_of_mem _ inside, same⟩

theorem parseChunks_parsed {input : List Char} {chunks : List ScriptChunk} {items : List ScriptItemAst}
    (found : chunks.mapM (parseChunk input) = .ok items) :
    ∀ statement ∈ items.map ScriptItemAst.statement,
      ∀ whole, statement.argument = .chain whole → whole.Parsed := by
  intro statement member whole chain
  obtain ⟨item, inside, rfl⟩ := List.mem_map.mp member
  obtain ⟨chunk, -, parsed⟩ := mapM_ok found item inside
  rw [parseChunk] at parsed
  obtain ⟨statement, inner, parsed⟩ := Parser.bind_eq_ok.mp parsed
  simp only [Except.ok.injEq] at parsed
  subst parsed
  exact (Parser.parseSingleStatement_chain inner chain).1

theorem parse_parsed {input : String} {ast : Ast} (found : Parser.parse input = .ok ast) :
    ∀ statement ∈ ast.statements, ∀ whole, statement.argument = .chain whole → whole.Parsed := by
  rw [Parser.parse] at found
  obtain ⟨tokens, -, found⟩ := Parser.bind_eq_ok.mp found
  rw [Parser.parseTokens] at found
  split at found
  · simp only [Except.ok.injEq] at found
    simp [← found, Ast.statements, Statement.argument]
  · obtain ⟨statement, inner, found⟩ := Parser.bind_eq_ok.mp found
    simp only [Except.ok.injEq] at found
    subst found
    intro other member whole chain
    obtain rfl : other = statement := List.mem_singleton.mp member
    exact (Parser.parseSingleStatement_chain inner chain).1
  · obtain ⟨items, inner, found⟩ := Parser.bind_eq_ok.mp found
    simp only [Except.ok.injEq] at found
    subst found
    exact parseChunks_parsed inner

theorem parseFileScript_parsed {input : String} {ast : Ast}
    (found : Parser.parseFileScript input = .ok ast) :
    ∀ statement ∈ ast.statements, ∀ whole, statement.argument = .chain whole → whole.Parsed := by
  rw [Parser.parseFileScript] at found
  obtain ⟨tokens, -, found⟩ := Parser.bind_eq_ok.mp found
  rw [Parser.parseTokensAsScript] at found
  split at found
  · simp at found
  · obtain ⟨items, inner, found⟩ := Parser.bind_eq_ok.mp found
    simp only [Except.ok.injEq] at found
    subst found
    exact parseChunks_parsed inner

/-- Every chain the parser produces is nested the way the grammar says. -/
theorem ChainNode.Produced.parsed (produced : node.Produced) : node.Parsed := by
  obtain ⟨command, accepted, single, member, chain⟩ := produced
  rcases accepted with ⟨input, mode, found⟩ | ⟨input, found⟩
  · rw [parseCommand] at found
    split at found
    · simp at found
    · next ast parsed =>
      obtain ⟨statement, inside, resolves⟩ := resolve_source found member
      exact resolveStatement_parsed resolves chain (parse_parsed parsed statement inside)
  · rw [parseFileScriptCommand] at found
    split at found
    · simp at found
    · next ast parsed =>
      obtain ⟨statement, inside, resolves⟩ := resolve_source found member
      exact resolveStatement_parsed resolves chain (parseFileScript_parsed parsed statement inside)

end Resolve

end CueShell
