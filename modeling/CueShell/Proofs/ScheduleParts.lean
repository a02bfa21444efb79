import CueShell.Model.Parser.Resolver
import CueShell.Proofs.Lexemes
import CueShell.ToMathlib.Words

/-! # The parts of a schedule

What the schedule parsers can yield for a duration, a time of day, a day filter and a crontab
expression, and that the printed form of such a part is read back as the same part.
-/

namespace CueShell

section Durations

/-- Read from a count of milliseconds or of seconds. -/
def Duration.Read (duration : Duration) : Prop :=
  ∃ count < 2 ^ 64, duration = .fromMillis count ∨ duration = .fromSecs count

theorem parseDurationWith_read {units : List (Char × ℕ)} {text : List Char} {duration : Duration}
    (found : parseDurationWith units text = some duration) : duration.Read := by
  unfold parseDurationWith at found
  split at found
  next digits _ =>
    obtain ⟨count, value, rfl⟩ := Option.map_eq_some_iff.mp found
    exact ⟨count, (Text.parseDigits_eq_some value).2.2.2, .inl rfl⟩
  next =>
    split at found
    next multiplier _ =>
      obtain ⟨count, -, found⟩ := Option.bind_eq_some_iff.mp found
      obtain ⟨small, same⟩ := Option.ite_none_right_eq_some.mp found
      obtain rfl := Option.some.inj same
      exact ⟨count * multiplier, small, .inr rfl⟩
    next => exact absurd found (by simp)

theorem parseDurationStr_eq :
    parseDurationStr = parseDurationWith [('s', 1), ('m', 60), ('h', 3600)] := rfl

theorem parseAsciiU64_toDigits {number : ℕ} (small : number < 2 ^ 64) :
    parseAsciiU64 (Nat.toDigits 10 number) = some number := by
  have read : parseAsciiU64 (Nat.toDigits 10 number) = _ :=
    Text.parseDigits_of_lt Nat.toDigits_ne_nil (isDigit_toDigits number) (by rwa [numeral_toDigits])
  rwa [numeral_toDigits] at read

/-- A numeral does not end in `m`, so one more letter does not make it end in `ms`. -/
theorem stripSuffix_ms_unit (number : ℕ) (unit : Char) :
    Text.stripSuffix ['m', 's'] (Nat.toDigits 10 number ++ [unit]) = none := by
  have differs : ¬ ['m', 's'] <:+ Nat.toDigits 10 number ++ [unit] := by
    rintro ⟨before, same⟩
    have shape : (before ++ ['m']) ++ ['s'] = Nat.toDigits 10 number ++ [unit] := by
      simpa using same
    have digits := (List.append_inj' shape rfl).1
    have letter := isDigit_toDigits number 'm' (by rw [← digits]; simp)
    exact absurd letter (by decide)
  simp [Text.stripSuffix, differs]

theorem parseDurationWith_millis (units : List (Char × ℕ)) {count : ℕ} (small : count < 2 ^ 64) :
    parseDurationWith units (Nat.toDigits 10 count ++ "ms".toList) = some (.fromMillis count) := by
  simp only [parseDurationWith, Text.stripSuffix_append, parseAsciiU64_toDigits small, Option.map_some]

theorem parseDurationWith_unit {units : List (Char × ℕ)} {count multiplier : ℕ} {unit : Char}
    (known : units.find? (fun entry => unit == entry.1) = some (unit, multiplier))
    (small : count < 2 ^ 64) (fits : count * multiplier < 2 ^ 64) :
    parseDurationWith units (Nat.toDigits 10 count ++ [unit]) =
      some (.fromSecs (count * multiplier)) := by
  simp [parseDurationWith, stripSuffix_ms_unit, known, parseAsciiU64_toDigits small]
  omega

theorem parseDurationWith_unknown {units : List (Char × ℕ)} {count : ℕ} {unit : Char}
    (unknown : units.find? (fun entry => unit == entry.1) = none) :
    parseDurationWith units (Nat.toDigits 10 count ++ [unit]) = none := by
  simp [parseDurationWith, stripSuffix_ms_unit, unknown]

/-- How a duration is printed: in milliseconds, or in the largest unit that measures it. -/
inductive Printed (duration : Duration) (text : List Char) : Prop where
  | millis (count : ℕ) (small : count < 2 ^ 64) (same : duration = .fromMillis count)
      (broken : duration % Duration.fromSecs 86400 ≠ 0)
      (shown : text = Nat.toDigits 10 count ++ "ms".toList)
  | unit (count multiplier : ℕ) (unit : Char)
      (known : (unit, multiplier) ∈ [('s', 1), ('m', 60), ('h', 3600)])
      (fits : count * multiplier < 2 ^ 64) (same : duration = .fromSecs (count * multiplier))
      (broken : duration % Duration.fromSecs 86400 ≠ 0)
      (shown : text = Nat.toDigits 10 count ++ [unit])
  | days (count : ℕ) (fits : count * 86400 < 2 ^ 64) (same : duration = .fromSecs (count * 86400))
      (shown : text = Nat.toDigits 10 count ++ ['d'])

theorem formatDurationShort_printed {duration : ℕ} (read : Duration.Read duration)
    (positive : duration ≠ 0) : Printed duration (formatDurationShort duration).toList := by
  obtain ⟨number, small, shape⟩ := read
  replace shape : duration = number * 1000000 ∨ duration = number * 1000000000 := shape
  have whole : duration % 1000000 = 0 := by omega
  by_cases even : duration % 1000000000 = 0
  · obtain ⟨count, rfl⟩ : ∃ count, duration = count * 1000000000 := ⟨duration / 1000000000, by omega⟩
    have fits : count < 2 ^ 64 := by omega
    have nonzero : count ≠ 0 := by
      rintro rfl
      exact positive (by omega)
    simp only [formatDurationShort, even, Nat.mul_div_cancel _ (show 0 < 1000000000 by omega), nonzero,
      gt_iff_lt, lt_irrefl, false_and, if_false]
    by_cases days : count % 86400 = 0
    · rw [if_pos days]
      have same : count * 1000000000 = count / 86400 * 86400 * 1000000000 := by omega
      exact .days (count / 86400) (by omega) same (by simp)
    have broken : count * 1000000000 % (86400 * 1000000000) ≠ 0 := by omega
    rw [if_neg days]
    by_cases hours : count % 3600 = 0
    · rw [if_pos hours]
      have same : count * 1000000000 = count / 3600 * 3600 * 1000000000 := by omega
      exact .unit (count / 3600) 3600 'h' (by simp) (by omega) same broken (by simp)
    rw [if_neg hours]
    by_cases minutes : count % 60 = 0
    · rw [if_pos minutes]
      have same : count * 1000000000 = count / 60 * 60 * 1000000000 := by omega
      exact .unit (count / 60) 60 'm' (by simp) (by omega) same broken (by simp)
    rw [if_neg minutes]
    have same : count * 1000000000 = count * 1 * 1000000000 := by omega
    exact .unit count 1 's' (by simp) (by omega) same broken (by simp)
  · rw [formatDurationShort, if_pos ⟨Nat.pos_of_ne_zero even, whole⟩]
    have same : duration = duration / 1000000 * 1000000 := by omega
    have broken : duration % (86400 * 1000000000) ≠ 0 := by omega
    exact .millis (duration / 1000000) (by omega) same broken (by simp)

/-- A printed duration is read back as the same duration by every parser that knows its unit. -/
theorem Printed.read_back {duration : Duration} {text : List Char} (printed : Printed duration text)
    {rest : List (Char × ℕ)} (known : duration % Duration.fromSecs 86400 = 0 →
      rest.find? (fun entry => 'd' == entry.1) = some ('d', 86400)) :
    parseDurationWith (('s', 1) :: ('m', 60) :: ('h', 3600) :: rest) text = some duration := by
  cases printed with
  | millis count small same broken shown =>
    rw [shown, same]
    exact parseDurationWith_millis _ small
  | unit count multiplier unit listed fits same broken shown =>
    rw [shown, same]
    simp only [List.mem_cons, Prod.mk.injEq, List.not_mem_nil, or_false] at listed
    rcases listed with ⟨rfl, rfl⟩ | ⟨rfl, rfl⟩ | ⟨rfl, rfl⟩ <;>
      exact parseDurationWith_unit rfl (by omega) fits
  | days count fits same shown =>
    rw [shown, same]
    refine parseDurationWith_unit ?_ (by omega) fits
    have whole : duration % Duration.fromSecs 86400 = 0 := by
      rw [same, Duration.fromSecs, Duration.fromSecs, Nat.mul_assoc]
      exact Nat.mul_mod_left _ _
    simpa using known whole

theorem Printed.isWord {duration : Duration} {text : List Char} (printed : Printed duration text) :
    Text.IsWord text := by
  have digits (count : ℕ) : Text.IsWord (Nat.toDigits 10 count) :=
    Text.isWord_of_all Nat.toDigits_ne_nil (fun _ => Text.isWhiteSpace_of_isDigit)
      (isDigit_toDigits count)
  cases printed with
  | millis count small same broken shown =>
    rw [shown]
    exact (digits count).append (by decide)
  | unit count multiplier unit listed fits same broken shown =>
    rw [shown]
    simp only [List.mem_cons, Prod.mk.injEq, List.not_mem_nil, or_false] at listed
    rcases listed with ⟨rfl, rfl⟩ | ⟨rfl, rfl⟩ | ⟨rfl, rfl⟩ <;>
      exact (digits count).append (by decide)
  | days count fits same shown =>
    rw [shown]
    exact (digits count).append (by decide)

theorem parseScheduleDuration_format {duration : Duration} (read : duration.Read)
    (positive : duration ≠ 0) :
    parseScheduleDuration (formatDurationShort duration).toList = some duration := by
  have printed := formatDurationShort_printed read positive
  have back : parseDurationWith [('s', 1), ('m', 60), ('h', 3600), ('d', 86400)]
      (formatDurationShort duration).toList = some duration := printed.read_back fun _ => rfl
  simp only [parseScheduleDuration, parseDurationShortText, printed.isWord.trim, if_neg printed.isWord.1,
    back, Option.filter_some, decide_eq_true positive, if_true]

end Durations

section Times

/-- A whole minute of the day. -/
def TimeRead (timeSecs : ℕ) : Prop := ∃ hour minute, hour < 24 ∧ minute < 60 ∧ timeSecs = hour * 3600 + minute * 60

theorem applyMeridiem_lt {meridiem : Option Bool} {hour hour' : ℕ}
    (found : applyMeridiem meridiem hour = some hour') : hour' < 24 := by
  unfold applyMeridiem at found
  split at found <;> grind

theorem parseTimeOfDay_read {input : String} {timeSecs : ℕ}
    (found : parseTimeOfDay input = some timeSecs) : TimeRead timeSecs := by
  simp only [parseTimeOfDay] at found
  split at found
  next =>
    obtain rfl := Option.some.inj found
    exact ⟨0, 0, by omega, by omega, rfl⟩
  next =>
    split at found
    next =>
      obtain rfl := Option.some.inj found
      exact ⟨12, 0, by omega, by omega, rfl⟩
    next =>
      obtain ⟨⟨hour, minute⟩, -, found⟩ := Option.bind_eq_some_iff.mp found
      split at found
      next => exact absurd found (by simp)
      next early =>
        obtain ⟨hour', meridiem, found⟩ := Option.bind_eq_some_iff.mp found
        obtain rfl := Option.some.inj found
        exact ⟨hour', minute, applyMeridiem_lt meridiem, by simpa using early, rfl⟩

/-- Two digits, or more, whose value is the number. -/
theorem twoDigits_digits (number : ℕ) : (twoDigits number).toList ≠ [] ∧
    (∀ c ∈ (twoDigits number).toList, c.isDigit = true) ∧
    Text.numeral (twoDigits number).toList = number := by
  have digits := isDigit_toDigits number
  unfold twoDigits
  split
  next =>
    have shown : ("0" ++ toString number).toList = '0' :: Nat.toDigits 10 number := by simp
    rw [shown]
    refine ⟨by simp, ?_, numeral_toDigits number⟩
    intro c member
    rcases List.mem_cons.mp member with rfl | member
    · rfl
    · exact digits c member
  next =>
    have shown : (toString number).toList = Nat.toDigits 10 number := by simp
    rw [shown]
    exact ⟨Nat.toDigits_ne_nil, digits, numeral_toDigits number⟩

theorem parseAsciiU32_twoDigits {number : ℕ} (small : number < 2 ^ 32) :
    parseAsciiU32 (twoDigits number).toList = some number := by
  obtain ⟨nonempty, digits, value⟩ := twoDigits_digits number
  have read : parseAsciiU32 (twoDigits number).toList = _ :=
    Text.parseDigits_of_lt nonempty digits (by rwa [value])
  rwa [value] at read

/-- The printed form of a time of day. -/
def timeText (timeSecs : ℕ) : String :=
  twoDigits (timeSecs / 3600) ++ ":" ++ twoDigits (timeSecs % 3600 / 60)

/-- Digits and a colon. -/
def isClockChar (c : Char) : Bool := c.isDigit || c == ':'

theorem isWhiteSpace_of_isClockChar {c : Char} (clock : isClockChar c = true) :
    Text.isWhiteSpace c = false := by
  rcases Bool.or_eq_true_iff.mp clock with digit | colon
  · exact Text.isWhiteSpace_of_isDigit digit
  · rw [beq_iff_eq.mp colon]
    rfl

theorem isUpper_of_isClockChar {c : Char} (clock : isClockChar c = true) : c.isUpper = false := by
  rcases Bool.or_eq_true_iff.mp clock with digit | colon
  · exact Text.isUpper_of_isDigit digit
  · rw [beq_iff_eq.mp colon]
    rfl

theorem timeText_clock (timeSecs : ℕ) : ∀ c ∈ (timeText timeSecs).toList, isClockChar c = true := by
  intro c member
  simp only [timeText, String.toList_append, List.mem_append] at member
  rcases member with (hour | colon) | minute
  · simp [isClockChar, (twoDigits_digits _).2.1 c hour]
  · simp_all [isClockChar]
  · simp [isClockChar, (twoDigits_digits _).2.1 c minute]

theorem timeText_isWord (timeSecs : ℕ) : Text.IsWord (timeText timeSecs).toList := by
  refine Text.isWord_of_all ?_ (fun _ => isWhiteSpace_of_isClockChar) (timeText_clock timeSecs)
  simp [timeText]

theorem parseClock_timeText {hour minute : ℕ} (early : hour < 24) (short : minute < 60) :
    parseClock (timeText (hour * 3600 + minute * 60)).toList = some (hour, minute) := by
  have hours : (hour * 3600 + minute * 60) / 3600 = hour := by omega
  have minutes : (hour * 3600 + minute * 60) % 3600 / 60 = minute := by omega
  have fresh : ':' ∉ (twoDigits hour).toList := fun member =>
    absurd ((twoDigits_digits hour).2.1 _ member) (by decide)
  have split : Text.splitOnce ':' (timeText (hour * 3600 + minute * 60)).toList =
      some ((twoDigits hour).toList, (twoDigits minute).toList) := by
    simp only [timeText, hours, minutes, String.toList_append, List.append_assoc]
    exact Text.splitOnce_append fresh _
  have first := parseAsciiU32_twoDigits (show hour < 2 ^ 32 by omega)
  have second := parseAsciiU32_twoDigits (show minute < 2 ^ 32 by omega)
  simp [parseClock, split, first, second]

/-- Nothing printed for a time reads as a name of the day or ends in a meridiem. -/
theorem stripSuffix_timeText (timeSecs : ℕ) (name : List Char)
    (letter : ∃ c ∈ name, isClockChar c = false) :
    Text.stripSuffix name (timeText timeSecs).toList = none := by
  obtain ⟨c, member, other⟩ := letter
  have differs : ¬ name <:+ (timeText timeSecs).toList := fun suffix =>
    absurd (timeText_clock timeSecs c (suffix.subset member)) (by simp [other])
  simp [Text.stripSuffix, differs]

theorem timeText_ne (timeSecs : ℕ) (name : List Char) (letter : ∃ c ∈ name, isClockChar c = false) :
    (timeText timeSecs).toList ≠ name := by
  rintro rfl
  obtain ⟨c, member, other⟩ := letter
  exact absurd (timeText_clock timeSecs c member) (by simp [other])

theorem parseTimeOfDay_timeText {timeSecs : ℕ} (read : TimeRead timeSecs) :
    parseTimeOfDay (timeText timeSecs) = some timeSecs := by
  obtain ⟨hour, minute, early, short, rfl⟩ := read
  have lower := Text.toAsciiLowercase_of_forall fun c member =>
    isUpper_of_isClockChar (timeText_clock (hour * 3600 + minute * 60) c member)
  have shortEnough : ¬ minute ≥ 60 := by omega
  have earlyEnough : ¬ hour > 23 := by omega
  simp only [parseTimeOfDay, (timeText_isWord _).trim, lower,
    timeText_ne _ "midnight".toList ⟨'m', by decide, by decide⟩,
    timeText_ne _ "noon".toList ⟨'n', by decide, by decide⟩,
    stripSuffix_timeText _ "am".toList ⟨'a', by decide, by decide⟩,
    stripSuffix_timeText _ "pm".toList ⟨'p', by decide, by decide⟩, if_false,
    parseClock_timeText early short, Option.bind_eq_bind, Option.bind_some, shortEnough, applyMeridiem,
    earlyEnough]

end Times

section Days

theorem expandWeekdayRange_ne_nil (start stop : Weekday) : expandWeekdayRange start stop ≠ [] := by
  cases start <;> cases stop <;> decide

theorem parseDayPart_ne_nil {part : List Char} {days : List Weekday}
    (found : parseDayPart part = some days) : days ≠ [] := by
  unfold parseDayPart at found
  split at found
  next =>
    obtain ⟨start, -, found⟩ := Option.bind_eq_some_iff.mp found
    obtain ⟨stop, -, found⟩ := Option.bind_eq_some_iff.mp found
    obtain rfl := Option.some.inj found
    exact expandWeekdayRange_ne_nil start stop
  next =>
    obtain ⟨day, -, rfl⟩ := Option.map_eq_some_iff.mp found
    simp

/-- A day filter names at least one day. -/
theorem parseDayFilter_ne_nil {input : String} {filter : DayFilter}
    (found : parseDayFilter input = some filter) : filter.days ≠ [] := by
  simp only [parseDayFilter] at found
  split_ifs at found
  · obtain rfl := Option.some.inj found
    decide
  · obtain rfl := Option.some.inj found
    decide
  · obtain rfl := Option.some.inj found
    decide
  · obtain ⟨parts, read, rfl⟩ := Option.map_eq_some_iff.mp found
    obtain ⟨first, rest, shape⟩ := List.exists_cons_of_ne_nil
      (List.splitOn_ne_nil ',' (Text.toAsciiLowercase (Text.trim input.toList)))
    rw [shape, List.mapM_cons] at read
    obtain ⟨days, firstDays, read⟩ := Option.bind_eq_some_iff.mp read
    obtain ⟨others, -, read⟩ := Option.bind_eq_some_iff.mp read
    obtain rfl := Option.some.inj read
    simp [parseDayPart_ne_nil firstDays]

theorem parseDayPart_shortName (day : Weekday) : parseDayPart day.shortName.toList = some [day] := by
  cases day <;> decide

/-- The printed days are three letters each, with commas between. -/
theorem shortNames_length {days : List Weekday} (some : days ≠ []) :
    ([','].intercalate (days.map fun day => day.shortName.toList)).length % 4 = 3 := by
  have three (day : Weekday) : day.shortName.toList.length = 3 := by cases day <;> rfl
  induction days with
  | nil => exact absurd rfl some
  | cons day rest ih =>
    cases rest with
    | nil => simp [three]
    | cons next more =>
      have tail := ih (by simp)
      simp only [List.map_cons, List.intercalate_cons_cons, List.length_append, List.length_singleton,
        three] at tail ⊢
      omega

theorem mapM_parseDayPart (days : List Weekday) :
    (days.map fun day => day.shortName.toList).mapM parseDayPart = some (days.map fun day => [day]) := by
  induction days with
  | nil => rfl
  | cons day rest ih => simp [List.mapM_cons, parseDayPart_shortName, ih]

theorem shortNames_dark (days : List Weekday) :
    ∀ c ∈ [','].intercalate (days.map fun day => day.shortName.toList),
      Text.isWhiteSpace c = false ∧ c.isUpper = false := by
  refine Text.forall_mem_intercalate ⟨rfl, rfl⟩ ?_
  intro word member
  obtain ⟨day, -, rfl⟩ := List.mem_map.mp member
  cases day <;> exact List.all_iff_forall_prop.mp rfl

theorem splitOn_shortNames {days : List Weekday} (some : days ≠ []) :
    ([','].intercalate (days.map fun day => day.shortName.toList)).splitOn ',' =
      days.map fun day => day.shortName.toList := by
  refine List.splitOn_intercalate ',' ?_ (by simpa using some)
  intro word member
  obtain ⟨day, -, rfl⟩ := List.mem_map.mp member
  cases day <;> decide

theorem DayFilter.display_isWord {filter : DayFilter} (some : filter.days ≠ []) :
    Text.IsWord filter.display.toList := by
  unfold DayFilter.display
  split_ifs
  · decide
  · decide
  · decide
  · have shown : (",".intercalate (filter.days.map Weekday.shortName)).toList =
        [','].intercalate (filter.days.map fun day => day.shortName.toList) := by
      simp [Function.comp_def]
    have length := shortNames_length some
    rw [shown]
    refine ⟨fun empty => ?_, fun c member => (shortNames_dark _ c member).1⟩
    rw [empty] at length
    simp at length

theorem parseDayFilter_display {filter : DayFilter} (some : filter.days ≠ []) :
    parseDayFilter filter.display = Option.some filter := by
  unfold DayFilter.display
  split_ifs with daily weekdays weekends
  · rw [show filter = ⟨Weekday.ordered⟩ by cases filter; exact congrArg _ daily]
    decide
  · rw [show filter = ⟨[.mon, .tue, .wed, .thu, .fri]⟩ by cases filter; exact congrArg _ weekdays]
    decide
  · rw [show filter = ⟨[.sat, .sun]⟩ by cases filter; exact congrArg _ weekends]
    decide
  · have shown : (",".intercalate (filter.days.map Weekday.shortName)).toList =
        [','].intercalate (filter.days.map fun day => day.shortName.toList) := by
      simp [Function.comp_def]
    have dark := shortNames_dark filter.days
    have length := shortNames_length some
    have other {name : List Char} (long : name.length % 4 ≠ 3) :
        [','].intercalate (filter.days.map fun day => day.shortName.toList) ≠ name := by
      rintro rfl
      exact long length
    simp only [parseDayFilter, shown, Text.trim_dark fun c member => (dark c member).1,
      Text.toAsciiLowercase_of_forall fun c member => (dark c member).2, splitOn_shortNames some,
      mapM_parseDayPart, Option.map_some]
    rw [if_neg (other (by decide)), if_neg (other (by decide)), if_neg (other (by decide))]
    simp [← List.flatMap_def]

end Days

section Crontabs

/-- The stored text of a crontab schedule is its five fields with single blanks between. -/
theorem CrontabSchedule.parse_fields {text : String} {schedule : CrontabSchedule}
    (found : CrontabSchedule.parse text = some schedule) :
    ∃ fields : List (List Char), fields.length = 5 ∧ (∀ field ∈ fields, Text.IsWord field) ∧
      schedule.expr.toList = [' '].intercalate fields ∧
      parseCrontabExpr schedule.expr.toList = some schedule.matcher := by
  obtain ⟨expr, normal, found⟩ := Option.bind_eq_some_iff.mp found
  obtain ⟨matcher, read, found⟩ := Option.bind_eq_some_iff.mp found
  obtain rfl := Option.some.inj found
  obtain ⟨five, same⟩ := Option.ite_none_right_eq_some.mp normal
  obtain rfl := Option.some.inj same
  refine ⟨Text.splitWhitespace text.toList, five, fun _ => Text.isWord_of_mem_splitWhitespace, ?_, read⟩
  simp [Function.comp_def]

theorem CrontabSchedule.joined_fields {text : String} {schedule : CrontabSchedule}
    (found : CrontabSchedule.parse text = some schedule) :
    (Text.splitWhitespace schedule.expr.toList).length = 5 ∧
      " ".intercalate ((Text.splitWhitespace schedule.expr.toList).map String.ofList) =
        schedule.expr := by
  obtain ⟨fields, five, words, shown, read⟩ := CrontabSchedule.parse_fields found
  rw [shown, Text.splitWhitespace_intercalate words]
  refine ⟨five, ?_⟩
  rw [← String.toList_inj, shown]
  simp [Function.comp_def]

/-- Reading the stored text again changes nothing. -/
theorem CrontabSchedule.parse_expr {text : String} {schedule : CrontabSchedule}
    (found : CrontabSchedule.parse text = some schedule) :
    CrontabSchedule.parse schedule.expr = some schedule := by
  obtain ⟨-, -, -, -, read⟩ := CrontabSchedule.parse_fields found
  obtain ⟨five, same⟩ := CrontabSchedule.joined_fields found
  simp [CrontabSchedule.parse, normalizeCrontabExpr, five, same, read]

end Crontabs

end CueShell
