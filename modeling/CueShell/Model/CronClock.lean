import CueShell.Model.CronSchedule
import Mathlib.Data.Int.ModEq

/-! # Local time and the next occurrence of a schedule

Points in time are nanoseconds since the epoch. A zone shows each of them as a civil time, which is
the count of nanoseconds that a clock without any zone would show; a civil time may belong to no point
in time, to one or to two. Dates are day numbers, and years and months are read off them.
-/

namespace CueShell

inductive LocalResult where
  | none
  | single (point : ℤ)
  | ambiguous (early late : ℤ)
deriving DecidableEq, Repr

def LocalResult.points : LocalResult → List ℤ
  | .none => []
  | .single point => [point]
  | .ambiguous early late => [early, late]

/-- A time zone: the civil time of every point, and the points of every civil time. -/
structure Zone where
  toLocal : ℤ → ℤ
  fromLocal : ℤ → LocalResult
  mem_points : ∀ point civil, point ∈ (fromLocal civil).points ↔ toLocal point = civil

def Zone.utc : Zone where
  toLocal := id
  fromLocal := .single
  mem_points point civil := by simp [LocalResult.points]

def LocalResult.single? : LocalResult → Option ℤ
  | .single point => some point
  | _ => Option.none

section Calendar

def nanosPerSecond : ℤ := 1000000000
def nanosPerMinute : ℤ := 60 * nanosPerSecond
def nanosPerHour : ℤ := 60 * nanosPerMinute
def nanosPerDay : ℤ := 24 * nanosPerHour

/-- The day number of a civil time; day zero is the first of January 1970. -/
def dayOf (civil : ℤ) : ℤ := civil / nanosPerDay

def hourOf (civil : ℤ) : ℕ := (civil % nanosPerDay / nanosPerHour).toNat

def minuteOf (civil : ℤ) : ℕ := (civil % nanosPerHour / nanosPerMinute).toNat

/-- Days from Monday: day zero is a Thursday. -/
def daysFromMonday (day : ℤ) : ℕ := ((day + 3) % 7).toNat

structure Civil where
  year : ℤ
  month : ℕ
  day : ℕ
deriving DecidableEq, Repr

/-- The date of a day number in the Gregorian calendar. Years are counted from March, so that the leap
day is the last one. -/
def civilOfDay (day : ℤ) : Civil :=
  let shifted := day + 719468
  let era := shifted / 146097
  let dayOfEra := (shifted % 146097).toNat
  let yearOfEra := (dayOfEra - dayOfEra / 1460 + dayOfEra / 36524 - dayOfEra / 146096) / 365
  let dayOfYear := dayOfEra - (365 * yearOfEra + yearOfEra / 4 - yearOfEra / 100)
  let monthFromMarch := (5 * dayOfYear + 2) / 153
  let month := if monthFromMarch < 10 then monthFromMarch + 3 else monthFromMarch - 9
  { year := yearOfEra + era * 400 + if month ≤ 2 then 1 else 0
    month := month
    day := dayOfYear - (153 * monthFromMarch + 2) / 5 + 1 }

def dayOfCivil (date : Civil) : ℤ :=
  let year := if date.month ≤ 2 then date.year - 1 else date.year
  let era := year / 400
  let yearOfEra := (year % 400).toNat
  let monthFromMarch := if date.month > 2 then date.month - 3 else date.month + 9
  let dayOfYear := (153 * monthFromMarch + 2) / 5 + date.day - 1
  let dayOfEra := yearOfEra * 365 + yearOfEra / 4 - yearOfEra / 100 + dayOfYear
  era * 146097 + dayOfEra - 719468

example : civilOfDay 0 = ⟨1970, 1, 1⟩ ∧ civilOfDay 19782 = ⟨2024, 2, 29⟩ ∧
    dayOfCivil ⟨2024, 2, 29⟩ = 19782 := by decide

end Calendar

section Occurrences

variable (zone : Zone)

/-- Change the civil time of a point; the result has to be unique. -/
def mapLocal (change : ℤ → ℤ) (point : ℤ) : Option ℤ :=
  (zone.fromLocal (change (zone.toLocal point))).single?

def withMinuteZero (civil : ℤ) : ℤ := civil - minuteOf civil * nanosPerMinute
def withSecondZero (civil : ℤ) : ℤ := civil - civil % nanosPerMinute / nanosPerSecond * nanosPerSecond
def withNanosecondZero (civil : ℤ) : ℤ := civil - civil % nanosPerSecond

/-- The first point of a civil time. -/
def localDatetime (day : ℤ) (hour minute : ℕ) : Option ℤ :=
  match zone.fromLocal (day * nanosPerDay + hour * nanosPerHour + minute * nanosPerMinute) with
  | .single point => some point
  | .ambiguous early _ => some early
  | .none => none

def Weekday.ofDay (day : ℤ) : Weekday := Weekday.ordered.getD (daysFromMonday day) .mon

/-- The time of day on a given date, if the filter takes that date and the time exists and is ahead. -/
def timeOfDayCandidate (now : ℤ) (timeSecs : ℕ) (days : Option DayFilter) (dayOffset : ℕ) :
    Option ℤ :=
  let date := dayOf (zone.toLocal now) + dayOffset
  if days.all fun filter => Weekday.ofDay date ∈ filter.days then
    (localDatetime zone date (timeSecs / 3600) (timeSecs % 3600 / 60)).filter fun candidate =>
      now < candidate
  else none

def nextTimeOfDayOccurrence (now : ℤ) (timeSecs : ℕ) (days : Option DayFilter) : Option ℤ :=
  if timeSecs < 86400 then (List.range 14).findSome? (timeOfDayCandidate zone now timeSecs days)
  else none

/-- The first of the month after a date. -/
def firstOfNextMonth (date : Civil) : Civil :=
  if date.month = 12 then ⟨date.year + 1, 1, 1⟩ else ⟨date.year, date.month + 1, 1⟩

def nextPresetOccurrence (now : ℤ) : CronPreset → Option ℤ
  | .hourly => do
      let start ← mapLocal zone withMinuteZero now
      let start ← mapLocal zone withSecondZero start
      let start ← mapLocal zone withNanosecondZero start
      some (start + nanosPerHour)
  | .daily => localDatetime zone (dayOf (zone.toLocal now) + 1) 0 0
  | .weekly =>
      let today := dayOf (zone.toLocal now)
      localDatetime zone (today + (7 - daysFromMonday today : ℕ)) 0 0
  | .monthly =>
      localDatetime zone (dayOfCivil (firstOfNextMonth (civilOfDay (dayOf (zone.toLocal now))))) 0 0

/-- When both day fields are restricted, one of them is enough. -/
def CrontabExpr.matches (expr : CrontabExpr) (minute hour dayOfMonth month dayOfWeek : ℕ) : Bool :=
  let dayOfMonthMatches := dayOfMonth ∈ expr.dayOfMonth
  let dayOfWeekMatches := dayOfWeek ∈ expr.dayOfWeek
  let dayMatches :=
    if expr.dayOfMonthAny || expr.dayOfWeekAny then dayOfMonthMatches && dayOfWeekMatches
    else dayOfMonthMatches || dayOfWeekMatches
  minute ∈ expr.minute && hour ∈ expr.hour && month ∈ expr.month && dayMatches

/-- Whether a crontab expression takes the civil minute of a point; Sunday is day zero. -/
def CrontabSchedule.matchesAt (schedule : CrontabSchedule) (point : ℤ) : Bool :=
  let civil := zone.toLocal point
  let date := civilOfDay (dayOf civil)
  schedule.matcher.matches (minuteOf civil) (hourOf civil) date.day date.month
    ((daysFromMonday (dayOf civil) + 1) % 7)

def crontabLookaheadMinutes : ℕ := 5 * 366 * 24 * 60

/-- The loop over the minutes that are left. -/
def findCrontabMinute (schedule : CrontabSchedule) : ℕ → ℤ → Option ℤ
  | 0, _ => none
  | rounds + 1, candidate =>
      if schedule.matchesAt zone candidate then some candidate
      else findCrontabMinute schedule rounds (candidate + nanosPerMinute)

def nextCrontabOccurrence (now : ℤ) (schedule : CrontabSchedule) : Option ℤ := do
  let start ← mapLocal zone withSecondZero now
  let start ← mapLocal zone withNanosecondZero start
  findCrontabMinute zone schedule crontabLookaheadMinutes (start + nanosPerMinute)

/-- The next occurrence by the calendar; intervals and delays have none. -/
def CronSchedule.nextOccurrence (now : ℤ) : CronSchedule → Option ℤ
  | .interval _ | .delay _ => none
  | .timeOfDay timeSecs days => nextTimeOfDayOccurrence zone now timeSecs days
  | .preset name => nextPresetOccurrence zone now name
  | .crontab schedule => nextCrontabOccurrence zone now schedule

end Occurrences

end CueShell
