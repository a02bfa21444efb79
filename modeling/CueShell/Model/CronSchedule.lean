import CueShell.ToMathlib.Text
import Mathlib.Data.List.Dedup
import Mathlib.Data.List.Sort

/-! # Cron schedules and their texts

A duration is a number of nanoseconds. Schedule texts are read with ASCII case folding; numbers are
nonempty strings of ASCII digits that fit their machine type.
-/

namespace CueShell

/-- Nanoseconds. -/
abbrev Duration := ℕ

def Duration.fromMillis (count : ℕ) : Duration := count * 1000000

def Duration.fromSecs (count : ℕ) : Duration := count * 1000000000

def parseAsciiU32 (text : List Char) : Option ℕ := Text.parseDigits (2 ^ 32) text

def parseAsciiU64 (text : List Char) : Option ℕ := Text.parseDigits (2 ^ 64) text

inductive Weekday where
  | mon
  | tue
  | wed
  | thu
  | fri
  | sat
  | sun
deriving DecidableEq, Repr

/-- Day-of-week filter for `at` schedules. -/
structure DayFilter where
  days : List Weekday
deriving DecidableEq, Repr

/-- Named schedule presets. -/
inductive CronPreset where
  | hourly
  | daily
  | weekly
  | monthly
deriving DecidableEq, Repr

structure CrontabExpr where
  minute : List ℕ
  hour : List ℕ
  dayOfMonth : List ℕ
  dayOfMonthAny : Bool
  month : List ℕ
  dayOfWeek : List ℕ
  dayOfWeekAny : Bool
deriving DecidableEq, Repr

/-- Five-field crontab schedule text plus its parsed matcher. -/
structure CrontabSchedule where
  expr : String
  matcher : CrontabExpr
deriving DecidableEq, Repr

inductive CronSchedule where
  | interval (period : Duration)
  | timeOfDay (timeSecs : ℕ) (days : Option DayFilter)
  | delay (after : Duration)
  | preset (name : CronPreset)
  | crontab (schedule : CrontabSchedule)
deriving DecidableEq, Repr

namespace Weekday

def ordered : List Weekday := [.mon, .tue, .wed, .thu, .fri, .sat, .sun]

def parseName (input : List Char) : Option Weekday :=
  let name := String.ofList (Text.toAsciiLowercase (Text.trim input))
  if name ∈ ["mon", "monday"] then some .mon
  else if name ∈ ["tue", "tues", "tuesday"] then some .tue
  else if name ∈ ["wed", "wednesday"] then some .wed
  else if name ∈ ["thu", "thur", "thurs", "thursday"] then some .thu
  else if name ∈ ["fri", "friday"] then some .fri
  else if name ∈ ["sat", "saturday"] then some .sat
  else if name ∈ ["sun", "sunday"] then some .sun
  else none

end Weekday

def expandWeekdayRange (start stop : Weekday) : List Weekday :=
  let startIdx := Weekday.ordered.idxOf start
  let endIdx := Weekday.ordered.idxOf stop
  if startIdx ≤ endIdx then (Weekday.ordered.take (endIdx + 1)).drop startIdx
  else Weekday.ordered.drop startIdx ++ Weekday.ordered.take (endIdx + 1)

def parseDayPart (part : List Char) : Option (List Weekday) :=
  match Text.splitOnce '-' (Text.trim part) with
  | some (start, stop) => do
      let start ← Weekday.parseName start
      let stop ← Weekday.parseName stop
      some (expandWeekdayRange start stop)
  | none => (Weekday.parseName (Text.trim part)).map fun day => [day]

def parseDayFilter (input : String) : Option DayFilter :=
  let normalized := Text.toAsciiLowercase (Text.trim input.toList)
  if normalized = "daily".toList then some ⟨Weekday.ordered⟩
  else if normalized = "weekdays".toList then some ⟨[.mon, .tue, .wed, .thu, .fri]⟩
  else if normalized = "weekends".toList then some ⟨[.sat, .sun]⟩
  else ((normalized.splitOn ',').mapM parseDayPart).map fun parts => ⟨parts.flatten⟩

/-- The clock reading before the meridiem is applied. -/
def parseClock (core : List Char) : Option (ℕ × ℕ) :=
  match Text.splitOnce ':' core with
  | some (hour, minute) => do
      let hour ← parseAsciiU32 hour
      let minute ← parseAsciiU32 minute
      some (hour, minute)
  | none => (parseAsciiU32 core).map fun hour => (hour, 0)

/-- The hour of a twelve-hour or twenty-four-hour clock. -/
def applyMeridiem (meridiem : Option Bool) (hour : ℕ) : Option ℕ :=
  match meridiem with
  | some false => if hour = 12 then some 0 else if hour > 11 then none else some hour
  | some true => if hour < 12 then some (hour + 12) else if hour > 12 then none else some hour
  | none => if hour > 23 then none else some hour

/-- Seconds from midnight; `some true` stands for `pm`. -/
def parseTimeOfDay (input : String) : Option ℕ :=
  let normalized := Text.toAsciiLowercase (Text.trim input.toList)
  if normalized = "midnight".toList then some 0
  else if normalized = "noon".toList then some (12 * 3600)
  else
    let (core, meridiem) :=
      match Text.stripSuffix "am".toList normalized, Text.stripSuffix "pm".toList normalized with
      | some core, _ => (core, some false)
      | none, some core => (core, some true)
      | none, none => (normalized, none)
    do
      let (hour, minute) ← parseClock core
      if minute ≥ 60 then none
      else
        let hour ← applyMeridiem meridiem hour
        some (hour * 3600 + minute * 60)

section Crontab

/-- The values of `min..=max`. -/
def cronRange (min max : ℕ) : List ℕ := List.range' min (max + 1 - min)

/-- Every `step`-th value of a list, starting with the first. -/
def everyNth (step : ℕ) (values : List ℕ) : List ℕ :=
  (values.zipIdx.filter fun (_, idx) => idx % step == 0).map Prod.fst

/-- Sorted without repetitions. -/
def sortDedup (values : List ℕ) : List ℕ := (values.insertionSort (· ≤ ·)).dedup

def parseCronValue (names : List (String × ℕ)) (input : List Char) : Option ℕ :=
  (parseAsciiU32 input).or
    ((names.find? fun (name, _) => name.toList == input).map Prod.snd)

def parseCronPart (min max : ℕ) (names : List (String × ℕ)) (part : List Char) :
    Option (List ℕ) := do
  let (range, step) ←
    match Text.splitOnce '/' part with
    | some (range, stepText) => do
        let step ← parseAsciiU32 stepText
        if step = 0 then none else some (range, some step)
    | none => some (part, none)
  let values ←
    match Text.splitOnce '-' range with
    | some (start, stop) => do
        let start ← parseCronValue names start
        let stop ← parseCronValue names stop
        if start > stop ∨ start < min ∨ stop > max then none else some (cronRange start stop)
    | none => do
        let value ← parseCronValue names range
        if value < min ∨ value > max then none else some [value]
  match step with
  | some step => some (everyNth step values)
  | none => some values

def parseCronItem (min max : ℕ) (names : List (String × ℕ)) (part : List Char) :
    Option (List ℕ) :=
  let part := Text.trim part
  if part = [] then none
  else if part = ['*'] then some (cronRange min max)
  else
    match Text.stripPrefix ['*', '/'] part with
    | some stepText => do
        let step ← parseAsciiU32 stepText
        if step = 0 then none else some (everyNth step (cronRange min max))
    | none => parseCronPart min max names part

def parseCronField (field : List Char) (min max : ℕ) (names : List (String × ℕ)) :
    Option (List ℕ) :=
  let normalized := Text.toAsciiLowercase (Text.trim field)
  ((normalized.splitOn ',').mapM (parseCronItem min max names)).map fun parts =>
    sortDedup parts.flatten

def coversFullRange (values : List ℕ) (min max : ℕ) : Bool := values == cronRange min max

def dayNames : List (String × ℕ) :=
  [("sun", 0), ("mon", 1), ("tue", 2), ("wed", 3), ("thu", 4), ("fri", 5), ("sat", 6)]

def monthNames : List (String × ℕ) :=
  [("jan", 1), ("feb", 2), ("mar", 3), ("apr", 4), ("may", 5), ("jun", 6), ("jul", 7), ("aug", 8),
    ("sep", 9), ("oct", 10), ("nov", 11), ("dec", 12)]

def parseCrontabExpr (expr : List Char) : Option CrontabExpr :=
  match Text.splitWhitespace expr with
  | [minute, hour, dayOfMonth, month, dayOfWeek] => do
      let dayOfMonth ← parseCronField dayOfMonth 1 31 []
      let dayOfWeek ← parseCronField dayOfWeek 0 7 dayNames
      let dayOfWeek := sortDedup (dayOfWeek.map fun value => if value = 7 then 0 else value)
      let minute ← parseCronField minute 0 59 []
      let hour ← parseCronField hour 0 23 []
      let month ← parseCronField month 1 12 monthNames
      some ⟨minute, hour, dayOfMonth, coversFullRange dayOfMonth 1 31, month, dayOfWeek,
        coversFullRange dayOfWeek 0 6⟩
  | _ => none

def normalizeCrontabExpr (expr : List Char) : Option String :=
  let fields := Text.splitWhitespace expr
  if fields.length = 5 then some (" ".intercalate (fields.map String.ofList)) else none

def CrontabSchedule.parse (expr : String) : Option CrontabSchedule := do
  let expr ← normalizeCrontabExpr expr.toList
  let matcher ← parseCrontabExpr expr.toList
  some ⟨expr, matcher⟩

end Crontab

section Display

def Weekday.shortName : Weekday → String
  | .mon => "mon"
  | .tue => "tue"
  | .wed => "wed"
  | .thu => "thu"
  | .fri => "fri"
  | .sat => "sat"
  | .sun => "sun"

def DayFilter.display (filter : DayFilter) : String :=
  if filter.days = Weekday.ordered then "daily"
  else if filter.days = [.mon, .tue, .wed, .thu, .fri] then "weekdays"
  else if filter.days = [.sat, .sun] then "weekends"
  else ",".intercalate (filter.days.map Weekday.shortName)

def CronPreset.display : CronPreset → String
  | .hourly => "hourly"
  | .daily => "daily"
  | .weekly => "weekly"
  | .monthly => "monthly"

def formatDurationShort (duration : Duration) : String :=
  let secs := duration / 1000000000
  if duration % 1000000000 > 0 ∧ duration % 1000000 = 0 then toString (duration / 1000000) ++ "ms"
  else if secs = 0 then "0s"
  else if secs % 86400 = 0 then toString (secs / 86400) ++ "d"
  else if secs % 3600 = 0 then toString (secs / 3600) ++ "h"
  else if secs % 60 = 0 then toString (secs / 60) ++ "m"
  else toString secs ++ "s"

/-- At least two digits. -/
def twoDigits (number : ℕ) : String :=
  if number < 10 then "0" ++ toString number else toString number

def CronSchedule.display : CronSchedule → String
  | .interval period => "every " ++ formatDurationShort period
  | .delay after => "in " ++ formatDurationShort after
  | .timeOfDay timeSecs days =>
      let time := twoDigits (timeSecs / 3600) ++ ":" ++ twoDigits (timeSecs % 3600 / 60)
      match days with
      | some days => "at " ++ time ++ " on " ++ days.display
      | none => "at " ++ time
  | .preset name => name.display
  | .crontab schedule => "cron " ++ schedule.expr

end Display

section Stored

/-- A count with the suffix `ms` or with one of the given units of so many seconds. -/
def parseDurationWith (units : List (Char × ℕ)) (text : List Char) : Option Duration :=
  match Text.stripSuffix "ms".toList text with
  | some count => (parseAsciiU64 count).map Duration.fromMillis
  | none =>
      match units.find? fun (unit, _) => text.getLast? == some unit with
      | some (_, multiplier) => do
          let count ← parseAsciiU64 text.dropLast
          if count * multiplier < 2 ^ 64 then some (Duration.fromSecs (count * multiplier)) else none
      | none => none

def parseDurationShortText (text : List Char) : Option Duration :=
  let text := Text.trim text
  if text = [] then none
  else parseDurationWith [('s', 1), ('m', 60), ('h', 3600), ('d', 86400)] text

def parseScheduleDuration (text : List Char) : Option Duration :=
  (parseDurationShortText text).filter (· ≠ 0)

/-- The day filter after `at <time> on`. -/
def parseAtDays (words : List String) : Option (Option DayFilter) :=
  if words[2]? = some "on" then (words[3]?.bind parseDayFilter).map some else some none

/-- The words after `at`. -/
def parseAtSchedule (words : List String) : Option CronSchedule := do
  let timeSecs ← words[1]?.bind parseTimeOfDay
  let days ← parseAtDays words
  if words.length = 2 ∨ words.length = 4 ∧ words[2]? = some "on" then some (.timeOfDay timeSecs days)
  else none

/-- Read the persisted text of a schedule. -/
def parseScheduleText (text : String) : Option CronSchedule :=
  let text := Text.trim text.toList
  let words := (Text.splitWhitespace text).map String.ofList
  match words[0]? with
  | none => none
  | some keyword =>
      if keyword = "every" ∧ words.length = 2 then
        (words[1]?.bind fun word => parseScheduleDuration word.toList).map .interval
      else if keyword = "in" ∧ words.length = 2 then
        (words[1]?.bind fun word => parseScheduleDuration word.toList).map .delay
      else if keyword = "at" then parseAtSchedule words
      else if keyword = "daily" ∧ words.length = 1 then some (.preset .daily)
      else if keyword = "hourly" ∧ words.length = 1 then some (.preset .hourly)
      else if keyword = "weekly" ∧ words.length = 1 then some (.preset .weekly)
      else if keyword = "monthly" ∧ words.length = 1 then some (.preset .monthly)
      else if keyword = "cron" ∧ words.length = 6 then
        (CrontabSchedule.parse (" ".intercalate (words.drop 1))).map .crontab
      else (CrontabSchedule.parse (String.ofList text)).map .crontab

end Stored

end CueShell
