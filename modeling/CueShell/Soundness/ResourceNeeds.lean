import Mathlib.Data.String.Basic
import CueShell.Model.Scheduler.Commands
import CueShell.Proofs.ChainStatements
import CueShell.ToMathlib.SortedEntries

/-! # Resource needs of a command

A parameter `need.X=v` of `:run` is carried as text by the parser and the resolver. Where the needs are
collected for admission, a value that is no quantity is skipped.
-/

namespace CueShell

/-- The resource that a parameter asks for. -/
def neededResource (key : String) : Option (List Char) := Text.stripPrefix "need.".toList key.toList

section Parsing

variable {p p' : Parser} {command : String} {params found : List (String × Value)}

/-- A need as the parser lets it pass. -/
def NeedShaped (param : String × Value) : Prop :=
  ∀ name, neededResource param.1 = some name → name ≠ [] ∧ ∃ text, param.2 = .str text

namespace Parser

theorem parseNeedParam_shaped {key suffix : String} {span : Span} {param : String × Value}
    (parsed : p.parseNeedParam command key suffix span = .ok (param, p'))
    (isNeed : neededResource key = some suffix.toList) : NeedShaped param := by
  rw [parseNeedParam] at parsed
  split_ifs at parsed with unsupported empty
  obtain ⟨p₁, -, parsed⟩ := bind_eq_ok.mp parsed
  obtain ⟨⟨value, p₂⟩, -, parsed⟩ := bind_eq_ok.mp parsed
  dsimp only at parsed
  split at parsed
  · next text =>
    cases parsed
    intro name named
    cases isNeed.symm.trans named
    exact ⟨fun none => empty (String.toList_inj.mp none), text, rfl⟩
  · cases parsed

theorem parseTableParam_key {key : String} {span : Span} {param : String × Value}
    (parsed : p.parseTableParam command key span = .ok (param, p')) : param.1 = key := by
  rw [parseTableParam] at parsed
  split at parsed
  · cases parsed
  split at parsed
  · cases parsed
  obtain ⟨p₁, -, parsed⟩ := bind_eq_ok.mp parsed
  obtain ⟨⟨value, p₂⟩, -, parsed⟩ := bind_eq_ok.mp parsed
  obtain ⟨-, -, parsed⟩ := bind_eq_ok.mp parsed
  cases parsed
  rfl

theorem parseModeParams_shaped {fuel : ℕ} (parsed : p.parseModeParams command fuel found = .ok (params, p'))
    (shaped : ∀ param ∈ found, NeedShaped param) : ∀ param ∈ params, NeedShaped param := by
  induction fuel generalizing found p with
  | zero =>
    cases parsed
    exact shaped
  | succ fuel ih =>
    rw [parseModeParams] at parsed
    split at parsed
    · cases parsed
      exact shaped
    · cases parsed
    · exact ih parsed shaped
    · next key isKey =>
      dsimp only at parsed
      split at parsed
      · next suffix named =>
        obtain ⟨⟨param, p₁⟩, inner, parsed⟩ := bind_eq_ok.mp parsed
        refine ih parsed (List.forall_mem_append.mpr ⟨shaped, fun other member => ?_⟩)
        rw [List.mem_singleton.mp member]
        refine parseNeedParam_shaped inner ?_
        rw [String.toList_ofList]
        exact named
      · next other =>
        obtain ⟨⟨param, p₁⟩, inner, parsed⟩ := bind_eq_ok.mp parsed
        refine ih parsed (List.forall_mem_append.mpr ⟨shaped, fun last member => ?_⟩)
        rw [List.mem_singleton.mp member]
        intro name named
        rw [parseTableParam_key inner] at named
        exact absurd (other.symm.trans named) (by simp)
    · cases parsed

/-- The mode parameters of a statement. -/
theorem parseSingleStatement_shaped {name : String} {argument : Argument} {span : Span}
    (parsed : p.parseSingleStatement = .ok (.command name params argument span)) :
    ∀ param ∈ params, NeedShaped param := by
  rw [parseSingleStatement] at parsed
  obtain ⟨⟨statement, p₁⟩, inner, parsed⟩ := bind_eq_ok.mp parsed
  dsimp only at parsed
  split_ifs at parsed
  · cases parsed
    rw [parseStatement] at inner
    dsimp only at inner
    split at inner
    · obtain ⟨spec, params, p₂, found, place, same, origin, -⟩ := parseCommand_ok inner
      cases same
      rcases origin with ⟨rfl, -⟩ | inside
      · exact fun param member => absurd member List.not_mem_nil
      · exact parseModeParams_shaped inside fun param member => absurd member List.not_mem_nil
    · cases inner
    · obtain ⟨⟨chain, p₂⟩, -, inner⟩ := bind_eq_ok.mp inner
      cases inner
  · cases parsed

end Parser

end Parsing

section Collecting

variable {env : Env} {key other : String} {name : List Char} {value : Value}

open SortedEntries (Sorted)

theorem insertOrdered_eq_put (key : String) (value : Value) (params : List (String × Value)) :
    ModeParams.insertOrdered key value params = SortedEntries.put key value params := by
  induction params with
  | nil => rfl
  | cons param params ih => rw [ModeParams.insertOrdered, SortedEntries.put, ih]

theorem convertModeParams_eq (params : List (String × Value)) :
    (convertModeParams params).params = SortedEntries.putAll params [] := by
  have collects (mode : ModeParams) :
      (params.foldl (fun mode param => mode.insert param.1 param.2) mode).params =
        SortedEntries.putAll params mode.params := by
    induction params generalizing mode with
    | nil => rfl
    | cons param params ih =>
      rw [List.foldl_cons, ih]
      exact congrArg (SortedEntries.putAll params) (insertOrdered_eq_put param.1 param.2 mode.params)
  exact collects {}

theorem neededResource_eq (named : neededResource key = some name) : key.toList = "need.".toList ++ name := by
  rw [neededResource, Text.stripPrefix] at named
  split_ifs at named with front
  obtain ⟨rest, split⟩ := List.isPrefixOf_iff_prefix.mp front
  rw [← split, Option.some_inj, List.drop_left] at named
  rw [← split, named]

theorem neededResource_injective (named : neededResource key = some name)
    (same : neededResource other = some name) : other = key :=
  String.toList_inj.mp ((neededResource_eq same).trans (neededResource_eq named).symm)

/-- The quantity of a parameter value. -/
def Value.quantity (env : Env) : Value → Option ResourceQuantity
  | .str text => env.parseQuantity text
  | .bool _ => none

/-- One parameter of the loop of `needs`. -/
def collected (env : Env) (param : String × Value) : Option (String × ResourceQuantity) :=
  match Text.stripPrefix "need.".toList param.1.toList, param.2 with
  | some name, .str text =>
      if name = [] then none else (env.parseQuantity text).map (String.ofList name, ·)
  | _, _ => none

theorem needs_eq (params : List (String × Value)) :
    ModeParams.needs env ⟨params⟩ = params.filterMap (collected env) := rfl

theorem collected_need (named : neededResource key = some name) (nonempty : name ≠ []) :
    collected env (key, value) = (value.quantity env).map (String.ofList name, ·) := by
  rw [neededResource] at named
  rw [collected, named]
  cases value with
  | str text => exact if_neg nonempty
  | bool flag => rfl

theorem collected_other (named : neededResource key = some name) (differs : other ≠ key) :
    ∀ entry, collected env (other, value) = some entry → entry.1 ≠ String.ofList name := by
  intro entry found
  rw [collected] at found
  dsimp only at found
  split at found
  · next otherName text isNeed =>
    split_ifs at found
    obtain ⟨quantity, -, rfl⟩ := Option.map_eq_some_iff.mp found
    intro same
    have sameName : otherName = name := String.ofList_injective same
    exact differs (neededResource_injective named (sameName ▸ isNeed))
  · cases found

theorem Need.get_cons (entry : String × ResourceQuantity) (need : Need) (resource : String) :
    Need.get (entry :: need) resource = if entry.1 = resource then some entry.2 else need.get resource := by
  by_cases same : entry.1 = resource
  · simp [Need.get, same]
  · simp [Need.get, same]

/-- The need for a resource is the quantity of its parameter. -/
theorem needs_get (named : neededResource key = some name) (nonempty : name ≠ [])
    {entries : List (String × Value)} (sorted : Sorted entries) :
    (ModeParams.needs env ⟨entries⟩).get (String.ofList name) =
      (SortedEntries.get entries key).bind (Value.quantity env) := by
  rw [needs_eq]
  induction entries with
  | nil => rfl
  | cons entry entries ih =>
    obtain ⟨above, tail⟩ := List.pairwise_cons.mp sorted
    obtain ⟨first, value⟩ := entry
    rw [SortedEntries.get_cons]
    by_cases isKey : first = key
    · subst isKey
      have absent : SortedEntries.get entries first = none := SortedEntries.get_eq_none_of_above above
      rw [if_pos rfl, Option.bind_some]
      rw [absent] at ih
      cases quantity : value.quantity env with
      | none =>
        have skipped : collected env (first, value) = none := by
          rw [collected_need named nonempty, quantity]
          rfl
        rw [List.filterMap_cons_none skipped, ih tail]
        rfl
      | some amount =>
        have taken : collected env (first, value) = some (String.ofList name, amount) := by
          rw [collected_need named nonempty, quantity]
          rfl
        rw [List.filterMap_cons_some taken, Need.get_cons, if_pos rfl]
    · rw [if_neg isKey, ← ih tail]
      cases taken : collected env (first, value) with
      | none => rw [List.filterMap_cons_none taken]
      | some entry =>
        rw [List.filterMap_cons_some taken, Need.get_cons,
          if_neg (collected_other named isKey entry taken)]

end Collecting

section Needs

variable {env : Env} {config : Config} {p : Parser} {params : List (String × Value)} {chain : ChainNode}
  {span : Span} {state : SchedulerState} {clientId : ClientId} {direct : Option ClientId}
  {options : ChainExecutionOptions}

/-- Each need among the parameters is in the needs of the job, with the quantity of its value. -/
def NeedsKept (params : List (String × Value)) (needs : Need) : Prop :=
  ∀ key value name, (key, value) ∈ params → neededResource key = some name →
    ∃ text quantity, value = .str text ∧ ResourceQuantity.fromStr text = .ok quantity ∧
      needs.get (String.ofList name) = some quantity

/-- Each value of a need is a quantity, the same for all parameters with its key. -/
def NeedsValid (params : List (String × Value)) : Prop :=
  ∀ key text name, (key, .str text) ∈ params → neededResource key = some name →
    ∃ quantity, ResourceQuantity.fromStr text = .ok quantity ∧
      ∀ other, (key, .str other) ∈ params → ResourceQuantity.fromStr other = .ok quantity

theorem fromParams_needs {mode : ModeParams}
    (launched : ChainExecutionOptions.fromParams env config mode state clientId direct = .ok options) :
    options.process.needs = mode.needs env := by
  rw [ChainExecutionOptions.fromParams] at launched
  obtain ⟨launch, found, launched⟩ := Parser.bind_eq_ok.mp launched
  cases launched
  rw [launchOptionsFromParams] at found
  obtain ⟨sandbox, -, found⟩ := Parser.bind_eq_ok.mp found
  cases found
  rfl

theorem get_of_mem {entries : List (String × Value)} {key : String} {value : Value}
    (member : (key, value) ∈ entries) : ∃ first, SortedEntries.get entries key = some first ∧
      (key, first) ∈ entries := by
  induction entries with
  | nil => cases member
  | cons entry entries ih =>
    rw [SortedEntries.get_cons]
    by_cases isKey : entry.1 = key
    · exact ⟨entry.2, if_pos isKey, by rw [← isKey]; exact List.mem_cons_self⟩
    · rw [if_neg isKey]
      rcases List.mem_cons.mp member with rfl | later
      · exact absurd rfl isKey
      · obtain ⟨first, found, inside⟩ := ih later
        exact ⟨first, found, List.mem_cons_of_mem _ inside⟩

/-- The needs of an accepted `:run` are all kept exactly if their values are quantities, and those of one
resource agree. -/
theorem needsKept_iff (quantities : ∀ text, env.parseQuantity text = (ResourceQuantity.fromStr text).toOption)
    (parsed : p.parseSingleStatement = .ok (.command "run" params (.chain chain) span))
    (launched : ChainExecutionOptions.fromParams env config (convertModeParams params) state clientId direct =
      .ok options) :
    Resolver.resolveCommand "run" params (.chain chain) span =
      some (.ok (.run chain (convertModeParams params))) ∧
    (NeedsKept params options.process.needs ↔ NeedsValid params) := by
  refine ⟨rfl, ?_⟩
  have shaped := Parser.parseSingleStatement_shaped parsed
  have sorted : SortedEntries.Sorted (SortedEntries.putAll params []) :=
    SortedEntries.Sorted.putAll List.Pairwise.nil params
  -- the last value of a key is the one that counts
  have last {key : String} {name : List Char} (named : neededResource key = some name)
      (nonempty : name ≠ []) : options.process.needs.get (String.ofList name) =
        (SortedEntries.get params.reverse key).bind (Value.quantity env) := by
    have collects : (convertModeParams params) = ⟨SortedEntries.putAll params []⟩ :=
      congrArg ModeParams.mk (convertModeParams_eq params)
    rw [fromParams_needs launched, collects, needs_get named nonempty sorted, SortedEntries.get_putAll,
      SortedEntries.get_nil, Option.or_none]
  constructor
  · intro kept key text name member named
    obtain ⟨text', quantity, same, valid, there⟩ := kept key _ name member named
    cases same
    refine ⟨quantity, valid, fun other also => ?_⟩
    obtain ⟨text', quantity', same, valid', there'⟩ := kept key _ name also named
    cases same
    cases there.symm.trans there'
    exact valid'
  · intro valid key value name member named
    obtain ⟨nonempty, text, rfl⟩ := shaped _ member name named
    obtain ⟨quantity, isQuantity, agree⟩ := valid key text name member named
    obtain ⟨final, found, inside⟩ := get_of_mem (List.mem_reverse.mpr member)
    rw [List.mem_reverse] at inside
    obtain ⟨-, finalText, rfl⟩ := shaped _ inside name named
    refine ⟨text, quantity, rfl, isQuantity, ?_⟩
    rw [last named nonempty, found, Option.bind_some, Value.quantity, quantities,
      agree finalText inside]
    rfl

/-- An environment with the quantities of the source. -/
def quantityEnv : Env :=
  { Env.calm with parseQuantity := fun text => (ResourceQuantity.fromStr text).toOption }

/-- The tokens of `:run(need.gpu=…) ls` without the blanks, for a value of three characters. -/
def needTokens (value : String) : List Spanned :=
  [⟨.command "run", ⟨0, 4⟩⟩, ⟨.modeParenOpen, ⟨4, 5⟩⟩, ⟨.word "need.gpu", ⟨5, 13⟩⟩, ⟨.paramEq, ⟨13, 14⟩⟩,
    ⟨.word value, ⟨14, 17⟩⟩, ⟨.modeParenClose, ⟨17, 18⟩⟩, ⟨.word "ls", ⟨19, 21⟩⟩]

def listing : ChainNode := .leaf (.simple ["ls"])

def runOptions (needs : Need) : ChainExecutionOptions :=
  ⟨⟨none, { needs }, false, true, none⟩, false⟩

def openConfig : Config := ⟨⟨[], []⟩, ⟨[]⟩, false, 0⟩

/-- A need of 24 gigabytes. -/
theorem needsKept_bytes :
    tokenizeForParser ":run(need.gpu=24G) ls" = .ok (needTokens "24G" ++ [⟨.eof, ⟨21, 21⟩⟩]) ∧
    NeedsKept [("need.gpu", .str "24G")] [("gpu", .bytes 24000000000)] := by
  have parsed : (⟨needTokens "24G", ":run(need.gpu=24G) ls".toList⟩ : Parser).parseSingleStatement =
      .ok (.command "run" [("need.gpu", .str "24G")] (.chain listing) ⟨0, 21⟩) := by decide
  have launched : ChainExecutionOptions.fromParams quantityEnv openConfig
      (convertModeParams [("need.gpu", .str "24G")]) .new 0 none =
        .ok (runOptions [("gpu", .bytes 24000000000)]) := rfl
  have valid : ResourceQuantity.fromStr "24G" = .ok (.bytes 24000000000) := by decide
  refine ⟨by decide, (needsKept_iff (fun _ => rfl) parsed launched).2.mpr ?_⟩
  intro key text name member named
  cases List.mem_singleton.mp member
  refine ⟨.bytes 24000000000, valid, fun other also => ?_⟩
  cases List.mem_singleton.mp also
  exact valid

/-- `abc` is no quantity: the command runs without the need. -/
theorem need_dropped :
    tokenizeForParser ":run(need.gpu=abc) ls" = .ok (needTokens "abc" ++ [⟨.eof, ⟨21, 21⟩⟩]) ∧
    (⟨needTokens "abc", ":run(need.gpu=abc) ls".toList⟩ : Parser).parseSingleStatement =
      .ok (.command "run" [("need.gpu", .str "abc")] (.chain listing) ⟨0, 21⟩) ∧
    ChainExecutionOptions.fromParams quantityEnv openConfig
      (convertModeParams [("need.gpu", .str "abc")]) .new 0 none = .ok (runOptions []) ∧
    ResourceQuantity.fromStr "abc" = .error ⟨"abc", .invalidNumber⟩ ∧
    ¬ NeedsKept [("need.gpu", .str "abc")] (runOptions []).process.needs := by
  refine ⟨by decide, by decide, rfl, by decide, fun kept => ?_⟩
  obtain ⟨text, quantity, same, -, there⟩ :=
    kept "need.gpu" (.str "abc") "gpu".toList (List.mem_singleton_self _) (by decide)
  cases there

end Needs

end CueShell
