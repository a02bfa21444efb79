import CueShell.Proofs.ChainStatements
import CueShell.Proofs.ChainTokens
import CueShell.Proofs.CrontabText
import CueShell.Soundness.ChainText

/-! # Printed schedules in commands

A schedule that is printed and put back into a `:cron` command is read as the same schedule, but for
intervals and delays of whole days: these are printed in days, a unit that the command parser does
not know.
-/

namespace CueShell

/-- An interval or a delay that is a multiple of a day. -/
def CronSchedule.WholeDays : CronSchedule → Prop
  | .interval period => period % Duration.fromSecs 86400 = 0
  | .delay after => after % Duration.fromSecs 86400 = 0
  | _ => False

/-- The words between a schedule and the body. -/
def glueWords (spelled : Bool) : List String := if spelled then ["do"] else []

/-- A `:cron` command, with or without `do` between schedule and body. -/
def cronCommandText (schedule : CronSchedule) (spelled : Bool) (body : ChainNode) : String :=
  ":cron " ++ schedule.display ++ (if spelled then " do " else " ") ++ body.display

/-- The words in front of a body do not run on into it. -/
def BodyWords (spelled : Bool) (words : List String) : Prop :=
  ∃ first rest, words = first :: rest ∧ (spelled = true ∨ first ≠ "do" ∧ first ≠ "on")

section Words

variable {schedule : CronSchedule} {spelled : Bool} {words : List String} {span : Span}

theorem parseDurationStr_format {duration : Duration} (read : duration.Read) (positive : duration ≠ 0)
    (broken : duration % Duration.fromSecs 86400 ≠ 0) :
    parseDurationStr (formatDurationShort duration).toList = some duration := by
  rw [parseDurationStr_eq]
  exact (formatDurationShort_printed read positive).read_back fun whole => absurd whole broken

/-- The command parser does not know the unit of whole days. -/
theorem parseDurationStr_days {duration : Duration} (read : duration.Read) (positive : duration ≠ 0)
    (whole : duration % Duration.fromSecs 86400 = 0) :
    parseDurationStr (formatDurationShort duration).toList = none := by
  rw [parseDurationStr_eq]
  cases formatDurationShort_printed read positive with
  | millis count small same broken shown => exact absurd whole broken
  | unit count multiplier unit listed fits same broken shown => exact absurd whole broken
  | days count fits same shown =>
    rw [shown]
    exact parseDurationWith_unknown rfl

theorem BodyWords.not_do (bodyWords : BodyWords false words) : words[0]? ≠ some "do" := by
  obtain ⟨first, rest, rfl, spelled | ⟨other, -⟩⟩ := bodyWords
  · exact absurd spelled (by simp)
  · simpa using other

/-- The schedule in front of the words of a body. -/
theorem parseScheduleWords_display (read : schedule.Read) (broken : ¬ schedule.WholeDays)
    (bodyWords : BodyWords spelled words) :
    ∃ ast, parseScheduleWords (schedule.displayWords.map String.ofList ++ (glueWords spelled ++ words))
        span = .ok (ast, schedule.displayWords.length) ∧
      convertCronSchedule ast = some schedule := by
  have notOn : (glueWords spelled ++ words)[0]? ≠ some "on" := by
    obtain ⟨first, rest, rfl, spelled | ⟨-, other⟩⟩ := bodyWords
    · simp [spelled, glueWords]
    · cases spelled <;> simp [glueWords, other]
  cases read with
  | @interval period read positive =>
    refine ⟨.every period, ?_, by simp [convertCronSchedule, positive]⟩
    have parsed := parseDurationStr_format read positive broken
    simp [parseScheduleWords, CronSchedule.displayWords, requireDuration, parsed, Parser.ok_bind]
  | @delay after read positive =>
    refine ⟨.in after, ?_, by simp [convertCronSchedule, positive]⟩
    have parsed := parseDurationStr_format read positive broken
    simp [parseScheduleWords, CronSchedule.displayWords, requireDuration, parsed, Parser.ok_bind]
  | @timeOfDay timeSecs days read named =>
    cases days with
    | none =>
      refine ⟨.at (timeText timeSecs) none, ?_, ?_⟩
      · simp [parseScheduleWords, CronSchedule.displayWords, requireWord, Parser.ok_bind, notOn]
      · simp [convertCronSchedule, parseTimeOfDay_timeText read]
    | some days =>
      refine ⟨.at (timeText timeSecs) (some days.display), ?_, ?_⟩
      · simp [parseScheduleWords, CronSchedule.displayWords, requireWord, Parser.ok_bind]
      · simp [convertCronSchedule, parseTimeOfDay_timeText read,
          parseDayFilter_display (named days rfl)]
  | @preset name =>
    refine ⟨.preset name.display, ?_, by cases name <;> rfl⟩
    cases name <;> simp [parseScheduleWords, CronSchedule.displayWords, CronPreset.display]
  | @crontab text crontab read =>
    obtain ⟨five, same⟩ := CrontabSchedule.joined_fields read
    refine ⟨.crontab crontab.expr, ?_, by simp [convertCronSchedule, CrontabSchedule.parse_expr read]⟩
    simp [parseScheduleWords, CronSchedule.displayWords, five, same]

theorem parseBareCronSchedule_display (read : schedule.Read) (broken : ¬ schedule.WholeDays)
    (bodyWords : BodyWords spelled words) :
    ∃ ast consumed, parseBareCronSchedule
        (schedule.displayWords.map String.ofList ++ (glueWords spelled ++ words)) span =
          .ok (ast, consumed) ∧
      (schedule.displayWords.map String.ofList ++ (glueWords spelled ++ words)).drop consumed = words ∧
      convertCronSchedule ast = some schedule := by
  obtain ⟨ast, parsed, converted⟩ := @parseScheduleWords_display _ _ _ span read broken bodyWords
  have length : schedule.displayWords.length = (schedule.displayWords.map String.ofList).length := by simp
  refine ⟨ast, schedule.displayWords.length + (glueWords spelled).length, ?_, ?_, converted⟩
  · rw [parseBareCronSchedule, parsed, Parser.ok_bind]
    dsimp only
    rw [length, List.getElem?_append_right (le_refl _), Nat.sub_self]
    cases spelled with
    | true => simp [glueWords]
    | false =>
      have other := bodyWords.not_do
      simp [glueWords, other]
  · rw [length, ← List.length_append, ← List.append_assoc, List.drop_left]

/-- A duration of whole days is not read. -/
theorem parseBareCronSchedule_days (read : schedule.Read) (whole : schedule.WholeDays) (rest : List String) :
    ∃ error, parseBareCronSchedule (schedule.displayWords.map String.ofList ++ rest) span =
      .error error := by
  cases read with
  | @interval period read positive =>
    have unread := parseDurationStr_days read positive whole
    exact ⟨_, by simp [parseBareCronSchedule, parseScheduleWords, CronSchedule.displayWords,
      requireDuration, unread, cronError, bind, Except.bind]; rfl⟩
  | @delay after read positive =>
    have unread := parseDurationStr_days read positive whole
    exact ⟨_, by simp [parseBareCronSchedule, parseScheduleWords, CronSchedule.displayWords,
      requireDuration, unread, cronError, bind, Except.bind]; rfl⟩
  | timeOfDay read named => exact whole.elim
  | preset => exact whole.elim
  | crontab read => exact whole.elim

end Words

section Body

variable {words front : List String}

theorem JobPlan.setFirstCommand_self {plan : JobPlan} (found : plan.leftmostCommandWords = some words) :
    plan.setFirstCommand words = plan := by
  induction plan with
  | pipeline body =>
    obtain ⟨segments⟩ := body
    cases segments with
    | nil => rfl
    | cons segment rest =>
      obtain rfl : segment.command = words := by simpa [leftmostCommandWords] using found
      rfl
  | and left right ihl ihr => simp [setFirstCommand, ihl found]
  | or left right ihl ihr => simp [setFirstCommand, ihl found]

theorem JobPlan.setFirstCommand_twice (plan : JobPlan) (front words : List String) :
    (plan.setFirstCommand front).setFirstCommand words = plan.setFirstCommand words := by
  induction plan with
  | pipeline body =>
    obtain ⟨segments⟩ := body
    cases segments <;> rfl
  | and left right ihl ihr => simp [setFirstCommand, ihl]
  | or left right ihl ihr => simp [setFirstCommand, ihl]

theorem JobPlan.leftmost_setFirstCommand {plan : JobPlan} (found : plan.leftmostCommandWords = some words) :
    (plan.setFirstCommand front).leftmostCommandWords = some front := by
  induction plan with
  | pipeline body =>
    obtain ⟨segments⟩ := body
    cases segments with
    | nil => exact absurd found (by simp [leftmostCommandWords])
    | cons segment rest => rfl
  | and left right ihl ihr => exact ihl found
  | or left right ihl ihr => exact ihl found

/-- Words put in front of the first command are printed in front of the job. -/
theorem JobPlan.spaced_setFirstCommand {plan : JobPlan} (found : plan.leftmostCommandWords = some words)
    (nonempty : words ≠ []) (front : List String) :
    (plan.setFirstCommand (front ++ words)).spaced =
      front.map (fun word => (0, .word word)) ++ plan.spaced := by
  induction plan with
  | pipeline body =>
    obtain ⟨segments⟩ := body
    cases segments with
    | nil => exact absurd found (by simp [leftmostCommandWords])
    | cons segment rest =>
      obtain rfl : segment.command = words := by simpa [leftmostCommandWords] using found
      simp [setFirstCommand, spaced, PipeSegment.spaced, nonempty]
  | and left right ihl ihr => simp [setFirstCommand, spaced, ihl found]
  | or left right ihl ihr => simp [setFirstCommand, spaced, ihl found]

theorem ChainNode.setLeftmost_self {node : ChainNode} (found : node.leftmostCommandWords = some words) :
    node.setLeftmostCommandWords words = node := by
  induction node with
  | leaf plan => simp [setLeftmostCommandWords, JobPlan.setFirstCommand_self found]
  | serial left op right ihl ihr => simp [setLeftmostCommandWords, ihl found]
  | parallel left op right ihl ihr => simp [setLeftmostCommandWords, ihl found]

theorem ChainNode.setLeftmost_twice (node : ChainNode) (front words : List String) :
    (node.setLeftmostCommandWords front).setLeftmostCommandWords words =
      node.setLeftmostCommandWords words := by
  induction node with
  | leaf plan => simp [setLeftmostCommandWords, JobPlan.setFirstCommand_twice]
  | serial left op right ihl ihr => simp [setLeftmostCommandWords, ihl]
  | parallel left op right ihl ihr => simp [setLeftmostCommandWords, ihl]

theorem ChainNode.leftmost_setLeftmost {node : ChainNode} (found : node.leftmostCommandWords = some words) :
    (node.setLeftmostCommandWords front).leftmostCommandWords = some front := by
  induction node with
  | leaf plan => exact JobPlan.leftmost_setFirstCommand found
  | serial left op right ihl ihr => exact ihl found
  | parallel left op right ihl ihr => exact ihl found

theorem ChainNode.spaced_setLeftmost {node : ChainNode} (found : node.leftmostCommandWords = some words)
    (nonempty : words ≠ []) (front : List String) :
    (node.setLeftmostCommandWords (front ++ words)).spaced =
      front.map (fun word => (0, .word word)) ++ node.spaced := by
  induction node with
  | leaf plan => exact JobPlan.spaced_setFirstCommand found nonempty front
  | serial left op right ihl ihr => simp [setLeftmostCommandWords, spaced, ihl found]
  | parallel left op right ihl ihr => simp [setLeftmostCommandWords, spaced, ihl found]

/-- Words put in front of the first command of a chain stand in front of its text. -/
theorem ChainNode.display_setLeftmost {node : ChainNode} (parsed : node.Parsed)
    (found : node.leftmostCommandWords = some words) (nonempty : words ≠ []) (some : front ≠ []) :
    (node.setLeftmostCommandWords (front ++ words)).display =
      " ".intercalate front ++ " " ++ node.display := by
  have nested : (node.setLeftmostCommandWords (front ++ words)).Parsed :=
    parsed.setLeftmost (by simp [some])
  have whole := ChainNode.spread_spaced nested
  have body := ChainNode.spread_spaced parsed
  have words : spread (front.map fun word => (0, .word word)) =
      front.flatMap fun word => ' ' :: word.toList := by
    simp [spread, List.flatMap_map, Piece.text]
  rw [ChainNode.spaced_setLeftmost found nonempty, spread_append, words, ← blank_intercalate some,
    ← body] at whole
  rw [← String.toList_inj]
  simpa using whole

end Body

section Command

variable {schedule : CronSchedule} {spelled : Bool} {body : ChainNode} {words : List String}

/-- The words of the schedule and `do`, as words of the leftmost command. -/
def CronSchedule.frontWords (schedule : CronSchedule) (spelled : Bool) : List String :=
  schedule.displayWords.map String.ofList ++ glueWords spelled

theorem CronSchedule.frontWords_ne_nil (schedule : CronSchedule) (spelled : Bool) :
    schedule.frontWords spelled ≠ [] := by
  cases schedule with
  | timeOfDay timeSecs days => cases days <;> simp [frontWords, displayWords]
  | _ => simp [frontWords, displayWords]

theorem CronSchedule.frontWords_plain (read : schedule.Read) :
    ∀ word ∈ schedule.frontWords spelled, plainWord word.toList = true := by
  intro word member
  rcases List.mem_append.mp member with member | member
  · obtain ⟨text, inside, rfl⟩ := List.mem_map.mp member
    simpa using read.displayWords_plain text inside
  · cases spelled with
    | false => exact absurd member (by simp [glueWords])
    | true =>
      obtain rfl : word = "do" := by simpa [glueWords] using member
      decide

theorem cronCommandText_eq (read : schedule.Read) (parsed : body.Parsed)
    (found : body.leftmostCommandWords = some words) (nonempty : words ≠ []) :
    cronCommandText schedule spelled body = ":" ++ "cron" ++ " " ++
      (body.setLeftmostCommandWords (schedule.frontWords spelled ++ words)).display := by
  have shown : " ".intercalate (schedule.displayWords.map String.ofList) = schedule.display := by
    rw [← String.toList_inj, read.display_eq]
    simp [Function.comp_def]
  have some : schedule.displayWords.map String.ofList ≠ [] := by
    simpa [CronSchedule.frontWords, glueWords] using schedule.frontWords_ne_nil false
  rw [ChainNode.display_setLeftmost parsed found nonempty (schedule.frontWords_ne_nil spelled)]
  cases spelled with
  | false => simp [cronCommandText, CronSchedule.frontWords, glueWords, shown, String.append_assoc]
  | true =>
    rw [CronSchedule.frontWords, String.intercalate_append_of_ne_nil some (by simp [glueWords]), shown]
    simp [cronCommandText, glueWords, String.append_assoc]

/-- The command is parsed as a chain whose first words are those of the schedule. -/
theorem parse_cronCommand (read : schedule.Read) (parsed : body.Parsed) (plain : body.PlainWords)
    (found : body.leftmostCommandWords = some words) (nonempty : words ≠ []) :
    ∃ span, Parser.parse (cronCommandText schedule spelled body) = .ok (.single (.command "cron" []
      (.chain (body.setLeftmostCommandWords (schedule.frontWords spelled ++ words))) span)) := by
  rw [cronCommandText_eq read parsed found nonempty]
  refine parse_of_plain ⟨by decide, List.all_iff_forall_prop.mp rfl⟩ (.inr (by decide))
    (parsed.setLeftmost (by simp [nonempty])) ?_
  rw [← ChainNode.spaced_snd, ChainNode.spaced_setLeftmost found nonempty, List.map_append,
    ChainNode.spaced_snd, List.map_map]
  intro piece member
  rcases List.mem_append.mp member with member | member
  · obtain ⟨word, inside, rfl⟩ := List.mem_map.mp member
    exact CronSchedule.frontWords_plain read word inside
  · exact plain piece member

/-- For every schedule the resolver accepts, its printed text in a `:cron` command with any body of
plain words is accepted again and resolves to the same schedule, exactly if it is not an interval or
a delay of whole days. -/
theorem CronSchedule.command_display_iff (accepted : schedule.Accepted) (produced : body.Produced)
    (plain : body.PlainWords) (found : body.leftmostCommandWords = some words)
    (bodyWords : BodyWords spelled words) (mode : Mode) :
    parseCommand (cronCommandText schedule spelled body) mode =
        some (.ok (.single (.cron schedule body {}))) ↔ ¬ schedule.WholeDays := by
  have read := accepted.read
  have nonempty : words ≠ [] := by
    obtain ⟨first, rest, rfl, -⟩ := bodyWords
    simp
  obtain ⟨span, parse⟩ := @parse_cronCommand schedule spelled body words read produced.parsed plain found
    nonempty
  have resolved : parseCommand (cronCommandText schedule spelled body) mode = some ((resolveCron
      (body.setLeftmostCommandWords (schedule.frontWords spelled ++ words)) {} span).map .single) := by
    rw [parseCommand, parse]
    rfl
  have leftmost := @ChainNode.leftmost_setLeftmost words (schedule.frontWords spelled ++ words) body found
  rw [resolved, resolveCron, splitBareCronChain, leftmost]
  dsimp only
  rw [CronSchedule.frontWords, List.append_assoc]
  constructor
  · intro same whole
    obtain ⟨error, unread⟩ := @parseBareCronSchedule_days schedule span read whole
      (glueWords spelled ++ words)
    simp [unread, bind, Except.bind, Except.map] at same
  · intro broken
    obtain ⟨ast, consumed, parsed, dropped, converted⟩ :=
      @parseBareCronSchedule_display schedule spelled words span read broken bodyWords
    have more : (schedule.displayWords.map String.ofList ++ (glueWords spelled ++ words)).length ≠
        consumed := by
      intro all
      rw [← all, List.drop_length] at dropped
      exact nonempty dropped.symm
    simp only [parsed, Parser.ok_bind, more, if_false, dropped, converted,
      ChainNode.setLeftmost_twice, ChainNode.setLeftmost_self found]
    rfl

theorem CronSchedule.command_display_minutes :
    parseCommand (cronCommandText (.interval (.fromSecs 5400)) false (.leaf (.simple ["ls", "-l"]))) .job =
      some (.ok (.single (.cron (.interval (.fromSecs 5400)) (.leaf (.simple ["ls", "-l"])) {}))) := by
  have accepted : CronSchedule.Accepted (.interval (.fromSecs 5400)) :=
    ⟨["every", "90m"], ⟨0, 0⟩, .every (.fromSecs 5400), 2, by decide, by decide⟩
  have produced : (ChainNode.leaf (.simple ["ls", "-l"])).Produced :=
    ⟨.single (.run (.leaf (.simple ["ls", "-l"])) {}), .inl ⟨"ls -l", .job, by decide⟩, _,
      List.mem_singleton_self _, rfl⟩
  have bodyWords : BodyWords false ["ls", "-l"] := ⟨"ls", ["-l"], rfl, .inr ⟨by decide, by decide⟩⟩
  exact (CronSchedule.command_display_iff accepted produced (by decide) rfl bodyWords .job).mpr
    (by simp [CronSchedule.WholeDays, Duration.fromSecs])

/-- The period of a day is printed as `1d`, which the command parser rejects. -/
theorem CronSchedule.command_display_loses_days :
    parseCommand ":cron every 24h ls" .job =
        some (.ok (.single (.cron (.interval (.fromSecs 86400)) (.leaf (.simple ["ls"])) {}))) ∧
      CronSchedule.display (.interval (.fromSecs 86400)) = "every 1d" ∧
      parseCommand ":cron every 1d ls" .job =
        some (cronError ⟨0, 17⟩ .invalidCronSchedule
          "expected duration (e.g. 5m, 30s) after `every`" ["every 5m"]) := by
  refine ⟨by decide, by decide, by decide⟩

end Command

end CueShell
