import CueShell.Proofs.ChainGrammar
import CueShell.Proofs.ScheduleParts

/-! # The words of a printed schedule

Every schedule that a command or a stored text yields has parts as the parsers read them; it is
printed as words with single blanks between.
-/

namespace CueShell

/-- The schedules whose parts have the ranges that the parsers check. -/
inductive CronSchedule.Read : CronSchedule → Prop where
  | interval {period : Duration} (read : period.Read) (positive : period ≠ 0) : Read (.interval period)
  | delay {after : Duration} (read : after.Read) (positive : after ≠ 0) : Read (.delay after)
  | timeOfDay {timeSecs : ℕ} {days : Option DayFilter} (read : TimeRead timeSecs)
      (named : ∀ filter ∈ days, filter.days ≠ []) : Read (.timeOfDay timeSecs days)
  | preset {name : CronPreset} : Read (.preset name)
  | crontab {text : String} {schedule : CrontabSchedule}
      (read : CrontabSchedule.parse text = some schedule) : Read (.crontab schedule)

/-- The schedules that the resolver takes from the words of a `:cron` command. -/
def CronSchedule.Accepted (schedule : CronSchedule) : Prop :=
  ∃ words span ast consumed, parseBareCronSchedule words span = .ok (ast, consumed) ∧
    convertCronSchedule ast = some schedule

section Stored

theorem parseScheduleDuration_read {text : List Char} {duration : Duration}
    (found : parseScheduleDuration text = some duration) : duration.Read ∧ duration ≠ 0 := by
  obtain ⟨short, positive⟩ := Option.filter_eq_some_iff.mp found
  obtain ⟨-, short⟩ := Option.ite_none_left_eq_some.mp short
  exact ⟨parseDurationWith_read short, by simpa using positive⟩

theorem parseAtDays_read {words : List String} {days : Option DayFilter}
    (found : parseAtDays words = some days) : ∀ filter ∈ days, filter.days ≠ [] := by
  unfold parseAtDays at found
  split at found
  next =>
    obtain ⟨filter, named, rfl⟩ := Option.map_eq_some_iff.mp found
    obtain ⟨word, -, parsed⟩ := Option.bind_eq_some_iff.mp named
    simpa using parseDayFilter_ne_nil parsed
  next =>
    obtain rfl := Option.some.inj found
    simp

theorem parseAtSchedule_read {words : List String} {schedule : CronSchedule}
    (found : parseAtSchedule words = some schedule) : schedule.Read := by
  obtain ⟨timeSecs, time, found⟩ := Option.bind_eq_some_iff.mp found
  obtain ⟨days, filter, found⟩ := Option.bind_eq_some_iff.mp found
  obtain ⟨word, -, time⟩ := Option.bind_eq_some_iff.mp time
  obtain ⟨-, same⟩ := Option.ite_none_right_eq_some.mp found
  obtain rfl := Option.some.inj same
  exact .timeOfDay (parseTimeOfDay_read time) (parseAtDays_read filter)

theorem parseScheduleText_read {text : String} {schedule : CronSchedule}
    (found : parseScheduleText text = some schedule) : schedule.Read := by
  simp only [parseScheduleText] at found
  generalize Text.trim text.toList = trimmed at found
  generalize (Text.splitWhitespace trimmed).map String.ofList = words at found
  have timed {make : Duration → CronSchedule} (read : ∀ d : Duration, d.Read → d ≠ 0 → (make d).Read)
      (found : (words[1]?.bind fun word => parseScheduleDuration word.toList).map make = some schedule) :
      schedule.Read := by
    obtain ⟨duration, named, rfl⟩ := Option.map_eq_some_iff.mp found
    obtain ⟨word, -, parsed⟩ := Option.bind_eq_some_iff.mp named
    exact read duration (parseScheduleDuration_read parsed).1 (parseScheduleDuration_read parsed).2
  have tabled {expr : String} (found : (CrontabSchedule.parse expr).map .crontab = some schedule) :
      schedule.Read := by
    obtain ⟨crontab, parsed, rfl⟩ := Option.map_eq_some_iff.mp found
    exact .crontab parsed
  split at found
  next => exact absurd found (by simp)
  next =>
    split_ifs at found
    · exact timed (fun _ => .interval) found
    · exact timed (fun _ => .delay) found
    · exact parseAtSchedule_read found
    · exact Option.some.inj found ▸ .preset
    · exact Option.some.inj found ▸ .preset
    · exact Option.some.inj found ▸ .preset
    · exact Option.some.inj found ▸ .preset
    · exact tabled found
    · exact tabled found

end Stored

section Resolved

/-- The durations of the parsed schedule come from the duration parser. -/
def CronScheduleAst.Read : CronScheduleAst → Prop
  | .every period => period.Read
  | .in after => after.Read
  | _ => True

theorem requireDuration_read {words : List String} {span : Span} {keyword suggestion : String}
    {duration : Duration} (found : requireDuration words span keyword suggestion = .ok duration) :
    duration.Read := by
  unfold requireDuration at found
  split at found
  next read =>
    obtain ⟨word, -, read⟩ := Option.bind_eq_some_iff.mp read
    rw [parseDurationStr_eq] at read
    cases found
    exact parseDurationWith_read read
  next => exact absurd found (by simp [cronError])

theorem parseDoSchedule_read {words : List String} {span : Span} {ast : CronScheduleAst} {consumed : ℕ}
    (found : parseDoSchedule words span = .ok (ast, consumed)) : ast.Read := by
  unfold parseDoSchedule at found
  split at found
  next =>
    split_ifs at found
    · exact absurd found (by simp [cronError])
    · cases found
      trivial
    · exact absurd found (by simp [cronError])
  next => exact absurd found (by simp [cronError])

theorem parseScheduleWords_read {words : List String} {span : Span} {ast : CronScheduleAst} {consumed : ℕ}
    (found : parseScheduleWords words span = .ok (ast, consumed)) : ast.Read := by
  unfold parseScheduleWords at found
  split at found
  next => exact absurd found (by simp [cronError])
  next =>
    split at found
    next =>
      obtain ⟨period, read, found⟩ := Parser.bind_eq_ok.mp found
      cases found
      exact requireDuration_read read
    split at found
    next =>
      obtain ⟨time, -, found⟩ := Parser.bind_eq_ok.mp found
      split at found
      next =>
        obtain ⟨days, -, found⟩ := Parser.bind_eq_ok.mp found
        cases found
        trivial
      next =>
        cases found
        trivial
    split at found
    next =>
      obtain ⟨days, -, found⟩ := Parser.bind_eq_ok.mp found
      split at found
      next =>
        obtain ⟨time, -, found⟩ := Parser.bind_eq_ok.mp found
        cases found
        trivial
      next => exact absurd found (by simp [cronError])
    split at found
    next =>
      obtain ⟨after, read, found⟩ := Parser.bind_eq_ok.mp found
      cases found
      exact requireDuration_read read
    split at found
    next =>
      split at found
      next => exact absurd found (by simp [cronError])
      next =>
        cases found
        trivial
    split at found
    next =>
      cases found
      trivial
    next => exact parseDoSchedule_read found

theorem convertCronSchedule_read {ast : CronScheduleAst} {schedule : CronSchedule} (read : ast.Read)
    (found : convertCronSchedule ast = some schedule) : schedule.Read := by
  cases ast with
  | every period =>
    obtain ⟨positive, same⟩ := Option.ite_none_left_eq_some.mp found
    exact Option.some.inj same ▸ .interval read positive
  | «at» time days =>
    obtain ⟨timeSecs, time, found⟩ := Option.bind_eq_some_iff.mp found
    cases days with
    | some days =>
      obtain ⟨filter, named, rfl⟩ := Option.map_eq_some_iff.mp found
      exact .timeOfDay (parseTimeOfDay_read time) (by simpa using parseDayFilter_ne_nil named)
    | none => exact Option.some.inj found ▸ .timeOfDay (parseTimeOfDay_read time) (by simp)
  | «in» after =>
    obtain ⟨positive, same⟩ := Option.ite_none_left_eq_some.mp found
    exact Option.some.inj same ▸ .delay read positive
  | crontab expr =>
    obtain ⟨crontab, parsed, rfl⟩ := Option.map_eq_some_iff.mp found
    exact .crontab parsed
  | preset name =>
    simp only [convertCronSchedule] at found
    split_ifs at found
    all_goals exact Option.some.inj found ▸ .preset

theorem CronSchedule.Accepted.read {schedule : CronSchedule} (accepted : schedule.Accepted) :
    schedule.Read := by
  obtain ⟨words, span, ast, consumed, parsed, converted⟩ := accepted
  obtain ⟨⟨ast', taken⟩, read, same⟩ := Parser.bind_eq_ok.mp parsed
  cases same
  exact convertCronSchedule_read (parseScheduleWords_read read) converted

end Resolved

section Words

/-- The words that a schedule is printed as. -/
def CronSchedule.displayWords : CronSchedule → List (List Char)
  | .interval period => ["every".toList, (formatDurationShort period).toList]
  | .delay after => ["in".toList, (formatDurationShort after).toList]
  | .timeOfDay timeSecs none => ["at".toList, (timeText timeSecs).toList]
  | .timeOfDay timeSecs (some days) =>
      ["at".toList, (timeText timeSecs).toList, "on".toList, days.display.toList]
  | .preset name => [name.display.toList]
  | .crontab schedule => "cron".toList :: Text.splitWhitespace schedule.expr.toList

namespace CronSchedule.Read

variable {schedule : CronSchedule}

theorem displayWords_isWord (read : schedule.Read) :
    ∀ word ∈ schedule.displayWords, Text.IsWord word := by
  cases read with
  | interval read positive =>
    have printed := (formatDurationShort_printed read positive).isWord
    simp only [displayWords, List.forall_mem_cons, List.not_mem_nil, false_imp_iff, implies_true, and_true]
    exact ⟨by decide, printed⟩
  | delay read positive =>
    have printed := (formatDurationShort_printed read positive).isWord
    simp only [displayWords, List.forall_mem_cons, List.not_mem_nil, false_imp_iff, implies_true, and_true]
    exact ⟨by decide, printed⟩
  | @timeOfDay timeSecs days read named =>
    have time := timeText_isWord timeSecs
    cases days with
    | none =>
      simp only [displayWords, List.forall_mem_cons, List.not_mem_nil, false_imp_iff, implies_true,
        and_true]
      exact ⟨by decide, time⟩
    | some days =>
      have filter := DayFilter.display_isWord (named days rfl)
      simp only [displayWords, List.forall_mem_cons, List.not_mem_nil, false_imp_iff, implies_true,
        and_true]
      exact ⟨by decide, time, by decide, filter⟩
  | @preset name =>
    simp only [displayWords, List.mem_singleton, forall_eq]
    cases name <;> decide
  | crontab read =>
    simp only [displayWords, List.forall_mem_cons]
    exact ⟨by decide, fun _ => Text.isWord_of_mem_splitWhitespace⟩

theorem display_eq (read : schedule.Read) :
    schedule.display.toList = [' '].intercalate schedule.displayWords := by
  cases read with
  | interval => simp [CronSchedule.display, displayWords]
  | delay => simp [CronSchedule.display, displayWords]
  | @timeOfDay timeSecs days =>
    cases days <;> simp [CronSchedule.display, displayWords, timeText]
  | preset => simp [CronSchedule.display, displayWords]
  | crontab read =>
    obtain ⟨fields, five, words, shown, -⟩ := CrontabSchedule.parse_fields read
    have split := Text.splitWhitespace_intercalate words
    cases fields with
    | nil => exact absurd five (by simp)
    | cons first rest => simp [CronSchedule.display, displayWords, shown, split]

end CronSchedule.Read

end Words

end CueShell
