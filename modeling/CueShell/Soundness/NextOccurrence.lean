import Mathlib
import CueShell.Model.CronClock

/-! # The next occurrence of a schedule

A point matches a schedule if its civil time does. The searches for the next match look at fourteen dates
and at the minutes of five years. They find the least match exactly if it is in reach of the search: a
match in a repeated hour, behind a skipped one or behind the window is missed.
-/

namespace CueShell

/-- Whenever there is a later match, the least one is found. -/
def FindsLeast (now : ℤ) (matching : ℤ → Prop) (found : Option ℤ) : Prop :=
  (∃ point, now < point ∧ matching point) →
    ∃ next, found = some next ∧ now < next ∧ matching next ∧ ∀ point, now < point → matching point → next ≤ point

/-- The least point after now that matches. -/
def IsNext (now : ℤ) (matching : ℤ → Prop) (next : ℤ) : Prop :=
  IsLeast {point | now < point ∧ matching point} next

theorem exists_isNext {now : ℤ} {matching : ℤ → Prop} (some : ∃ point, now < point ∧ matching point) :
    ∃ next, IsNext now matching next := by
  classical
  obtain ⟨next, inside, least⟩ := Int.exists_least_of_bdd ⟨now, fun point later => le_of_lt later.1⟩ some
  exact ⟨next, inside, fun point later => least point later⟩

theorem findsLeast_iff {now : ℤ} {matching : ℤ → Prop} {found : Option ℤ} :
    FindsLeast now matching found ↔ ∀ next, IsNext now matching next → found = some next := by
  constructor
  · rintro finds next ⟨⟨later, fits⟩, least⟩
    obtain ⟨other, same, otherLater, otherFits, otherLeast⟩ := finds ⟨next, later, fits⟩
    rw [same, le_antisymm (otherLeast next later fits) (least ⟨otherLater, otherFits⟩)]
  · intro finds exists_
    obtain ⟨next, isNext⟩ := exists_isNext exists_
    exact ⟨next, finds next isNext, isNext.1.1, isNext.1.2, fun point later fits => isNext.2 ⟨later, fits⟩⟩

section TimeOfDay

/-- The civil time of an hour and a minute on a date. -/
def civilTime (day : ℤ) (hour minute : ℕ) : ℤ := day * nanosPerDay + hour * nanosPerHour + minute * nanosPerMinute

theorem dayOf_civilTime (day : ℤ) {timeSecs : ℕ} (inDay : timeSecs < 86400) :
    dayOf (civilTime day (timeSecs / 3600) (timeSecs % 3600 / 60)) = day := by
  simp only [dayOf, civilTime, nanosPerDay, nanosPerHour, nanosPerMinute, nanosPerSecond]
  omega

theorem lt_of_civilTime {civil : ℤ} {timeSecs : ℕ}
    (same : civil = civilTime (dayOf civil) (timeSecs / 3600) (timeSecs % 3600 / 60)) : timeSecs < 86400 := by
  simp only [dayOf, civilTime, nanosPerDay, nanosPerHour, nanosPerMinute, nanosPerSecond] at same
  omega

/-- The second of two points with one civil time. -/
def SecondPass (zone : Zone) (point : ℤ) : Prop :=
  ∃ early, early ≠ point ∧ zone.fromLocal (zone.toLocal point) = .ambiguous early point

theorem localDatetime_eq_some {zone : Zone} {day point : ℤ} {hour minute : ℕ} :
    localDatetime zone day hour minute = some point ↔
      zone.toLocal point = civilTime day hour minute ∧ ¬ SecondPass zone point := by
  have shown := zone.mem_points point (civilTime day hour minute)
  rw [localDatetime, ← civilTime]
  cases result : zone.fromLocal (civilTime day hour minute) with
  | none =>
    rw [result] at shown
    constructor
    · intro found
      cases found
    · rintro ⟨same, -⟩
      exact absurd (shown.mpr same) List.not_mem_nil
  | single only =>
    rw [result, LocalResult.points, List.mem_singleton] at shown
    rw [← shown, Option.some.injEq]
    constructor
    · rintro rfl
      refine ⟨rfl, fun ⟨early, _, twice⟩ => ?_⟩
      rw [shown.mp rfl, result] at twice
      cases twice
    · rintro ⟨rfl, -⟩
      rfl
  | ambiguous early late =>
    rw [result, LocalResult.points] at shown
    rw [← shown, Option.some.injEq]
    constructor
    · rintro rfl
      have inside : early ∈ [early, late] := List.mem_cons_self
      refine ⟨inside, fun ⟨first, other, twice⟩ => ?_⟩
      rw [shown.mp inside, result] at twice
      exact other (LocalResult.ambiguous.inj twice).1.symm
    · rintro ⟨inside, first⟩
      by_contra other
      obtain rfl : point = late := by
        rcases List.mem_cons.mp inside with same | same
        · exact absurd same.symm other
        · exact List.mem_singleton.mp same
      exact first ⟨early, other, by rw [shown.mp inside, result]⟩

variable (zone : Zone) (timeSecs : ℕ) (days : Option DayFilter)

/-- The clock shows the hour and the minute of the schedule on a day that the filter takes. -/
def MatchesTimeOfDay (point : ℤ) : Prop :=
  zone.toLocal point = civilTime (dayOf (zone.toLocal point)) (timeSecs / 3600) (timeSecs % 3600 / 60) ∧
    ∀ filter ∈ days, Weekday.ofDay (dayOf (zone.toLocal point)) ∈ filter.days

/-- The point lies on one of the fourteen dates from today on, is not the second one with its civil time,
and on no earlier one of these dates is the time of day still ahead. -/
def TimeOfDayInReach (now next : ℤ) : Prop :=
  ∃ offset : ℕ, offset < 14 ∧ dayOf (zone.toLocal next) = dayOf (zone.toLocal now) + offset ∧
    ¬ SecondPass zone next ∧ ∀ earlier < offset, timeOfDayCandidate zone now timeSecs days earlier = none

variable {zone timeSecs days} {now next : ℤ}

theorem timeOfDayCandidate_eq_some (inDay : timeSecs < 86400) {offset : ℕ} :
    timeOfDayCandidate zone now timeSecs days offset = some next ↔
      now < next ∧ MatchesTimeOfDay zone timeSecs days next ∧ ¬ SecondPass zone next ∧
        dayOf (zone.toLocal next) = dayOf (zone.toLocal now) + offset := by
  have taken : (days.all fun filter => decide (Weekday.ofDay (dayOf (zone.toLocal now) + offset) ∈ filter.days)) =
      true ↔ ∀ filter ∈ days, Weekday.ofDay (dayOf (zone.toLocal now) + offset) ∈ filter.days := by
    cases days <;> simp
  rw [timeOfDayCandidate, Option.ite_none_right_eq_some, taken, Option.filter_eq_some_iff, localDatetime_eq_some,
    decide_eq_true_eq, MatchesTimeOfDay]
  constructor
  · rintro ⟨filtered, ⟨shown, first⟩, later⟩
    have date : dayOf (zone.toLocal next) = dayOf (zone.toLocal now) + offset := by
      rw [shown, dayOf_civilTime _ inDay]
    rw [date]
    exact ⟨later, ⟨shown, filtered⟩, first, rfl⟩
  · rintro ⟨later, ⟨shown, filtered⟩, first, date⟩
    rw [date] at shown filtered
    exact ⟨filtered, ⟨shown, first⟩, later⟩

/-- The first offset that has a candidate. -/
theorem findSome_range_eq_some {α : Type} {count : ℕ} {candidate : ℕ → Option α} {value : α} :
    (List.range count).findSome? candidate = some value ↔
      ∃ offset < count, candidate offset = some value ∧ ∀ earlier < offset, candidate earlier = none := by
  induction count with
  | zero => simp
  | succ count ih =>
    have last : [count].findSome? candidate = candidate count := by
      cases found : candidate count <;> simp [found]
    rw [List.range_succ, List.findSome?_append, Option.or_eq_some_iff, ih, last, List.findSome?_eq_none_iff]
    simp only [List.mem_range]
    constructor
    · rintro (⟨offset, inside, found, before⟩ | ⟨before, found⟩)
      · exact ⟨offset, by omega, found, before⟩
      · exact ⟨count, by omega, found, before⟩
    · rintro ⟨offset, inside, found, before⟩
      rcases Nat.lt_succ_iff_lt_or_eq.mp inside with inside | rfl
      · exact .inl ⟨offset, inside, found, before⟩
      · exact .inr ⟨before, found⟩

/-- The search finds the next match exactly if it is in reach. -/
theorem nextTimeOfDayOccurrence_iff (isNext : IsNext now (MatchesTimeOfDay zone timeSecs days) next) :
    nextTimeOfDayOccurrence zone now timeSecs days = some next ↔
      TimeOfDayInReach zone timeSecs days now next := by
  obtain ⟨⟨later, fits⟩, -⟩ := isNext
  have inDay : timeSecs < 86400 := lt_of_civilTime fits.1
  rw [nextTimeOfDayOccurrence, if_pos inDay, findSome_range_eq_some]
  constructor
  · rintro ⟨offset, inside, found, none⟩
    obtain ⟨-, -, first, date⟩ := (timeOfDayCandidate_eq_some inDay).mp found
    exact ⟨offset, inside, date, first, none⟩
  · rintro ⟨offset, inside, date, first, none⟩
    exact ⟨offset, inside, (timeOfDayCandidate_eq_some inDay).mpr ⟨later, fits, first, date⟩, none⟩

/-- Every civil time is shown once, and later ones later. -/
structure Zone.Steady (zone : Zone) : Prop where
  single : ∀ civil, ∃ point, zone.fromLocal civil = .single point
  increasing : StrictMono zone.toLocal

theorem dayOf_mono : Monotone dayOf := fun _ _ before => Int.ediv_le_ediv (by decide) before

theorem weekday_periodic {day other : ℤ} (same : day % 7 = other % 7) : Weekday.ofDay day = Weekday.ofDay other := by
  rw [Weekday.ofDay, Weekday.ofDay, daysFromMonday, daysFromMonday, Int.add_emod, same, ← Int.add_emod]

namespace Zone.Steady

theorem firstPass (steady : zone.Steady) (point : ℤ) : ¬ SecondPass zone point := by
  rintro ⟨early, -, twice⟩
  obtain ⟨only, once⟩ := steady.single (zone.toLocal point)
  rw [once] at twice
  cases twice

theorem exists_shown (steady : zone.Steady) (civil : ℤ) : ∃ point, zone.toLocal point = civil := by
  obtain ⟨point, once⟩ := steady.single civil
  exact ⟨point, (zone.mem_points point civil).mp (by rw [once, LocalResult.points]; exact List.mem_cons_self)⟩

/-- A match is at most a week ahead. -/
theorem next_within_week (steady : zone.Steady) (isNext : IsNext now (MatchesTimeOfDay zone timeSecs days) next) :
    dayOf (zone.toLocal next) ≤ dayOf (zone.toLocal now) + 7 := by
  obtain ⟨⟨later, shown, filtered⟩, least⟩ := isNext
  have inDay : timeSecs < 86400 := lt_of_civilTime shown
  -- The first date after today with the weekday of the match.
  have date : ∃ date : ℤ, date % 7 = dayOf (zone.toLocal next) % 7 ∧ dayOf (zone.toLocal now) < date ∧
      date ≤ dayOf (zone.toLocal now) + 7 :=
    ⟨dayOf (zone.toLocal now) + 1 + (dayOf (zone.toLocal next) - dayOf (zone.toLocal now) - 1) % 7,
      by omega, by omega, by omega⟩
  obtain ⟨date, weekday, after, soon⟩ := date
  obtain ⟨point, civil⟩ := steady.exists_shown (civilTime date (timeSecs / 3600) (timeSecs % 3600 / 60))
  have onDate : dayOf (zone.toLocal point) = date := by rw [civil, dayOf_civilTime _ inDay]
  have ahead : now < point := by
    by_contra behind
    have before := dayOf_mono (steady.increasing.monotone (not_lt.mp behind))
    omega
  have fits : MatchesTimeOfDay zone timeSecs days point := by
    refine ⟨by rw [onDate, civil], fun filter member => ?_⟩
    rw [onDate, weekday_periodic weekday]
    exact filtered filter member
  have before := dayOf_mono (steady.increasing.monotone (least ⟨ahead, fits⟩))
  omega

/-- Without skipped and repeated times the search always finds the least match. -/
theorem timeOfDay_findsLeast (steady : zone.Steady) (now : ℤ) (timeSecs : ℕ) (days : Option DayFilter) :
    FindsLeast now (MatchesTimeOfDay zone timeSecs days) (nextTimeOfDayOccurrence zone now timeSecs days) := by
  rw [findsLeast_iff]
  intro next isNext
  have today := dayOf_mono (steady.increasing.monotone (le_of_lt isNext.1.1))
  have soon := steady.next_within_week isNext
  rw [nextTimeOfDayOccurrence_iff isNext]
  refine ⟨(dayOf (zone.toLocal next) - dayOf (zone.toLocal now)).toNat, by omega, by omega, steady.firstPass next, ?_⟩
  intro earlier inside
  rw [Option.eq_none_iff_forall_ne_some]
  intro point found
  obtain ⟨ahead, fits, -, date⟩ := (timeOfDayCandidate_eq_some (lt_of_civilTime isNext.1.2.1)).mp found
  have before := dayOf_mono (steady.increasing.monotone (isNext.2 ⟨ahead, fits⟩))
  omega

end Zone.Steady

end TimeOfDay

section Crontab

variable (zone : Zone) (schedule : CrontabSchedule)

/-- The clock shows the start of a minute that the expression takes. -/
def MatchesCrontab (point : ℤ) : Prop :=
  zone.toLocal point % nanosPerMinute = 0 ∧ schedule.matchesAt zone point = true

/-- The only point that shows the start of the current minute: seconds and fraction are cleared one after
the other. -/
def MinuteStart (now start : ℤ) : Prop :=
  ∃ whole, zone.fromLocal (withSecondZero (zone.toLocal now)) = .single whole ∧
    zone.fromLocal (withNanosecondZero (zone.toLocal whole)) = .single start

/-- The point is whole minutes after the start of the current minute, no more than the search looks at, and
none of the minutes before shows a time that the expression takes. -/
def CrontabInReach (now next : ℤ) : Prop :=
  ∃ start, MinuteStart zone now start ∧ ∃ minutes : ℕ, minutes < crontabLookaheadMinutes ∧
    next = start + (minutes + 1 : ℕ) * nanosPerMinute ∧
    ∀ earlier < minutes, schedule.matchesAt zone (start + (earlier + 1 : ℕ) * nanosPerMinute) = false

variable {zone schedule} {now next : ℤ}

theorem minute_add (start : ℤ) (minutes : ℕ) :
    start + nanosPerMinute + minutes * nanosPerMinute = start + (minutes + 1 : ℕ) * nanosPerMinute := by
  rw [Nat.cast_succ, Int.add_mul, Int.one_mul]
  omega

theorem findCrontabMinute_eq_some {rounds : ℕ} {candidate : ℤ} :
    findCrontabMinute zone schedule rounds candidate = some next ↔
      ∃ minutes < rounds, next = candidate + minutes * nanosPerMinute ∧ schedule.matchesAt zone next = true ∧
        ∀ earlier < minutes, schedule.matchesAt zone (candidate + earlier * nanosPerMinute) = false := by
  induction rounds generalizing candidate with
  | zero => simp [findCrontabMinute]
  | succ rounds ih =>
    rw [findCrontabMinute]
    split_ifs with first
    · rw [Option.some.injEq]
      constructor
      · rintro rfl
        exact ⟨0, by omega, by simp, first, by simp⟩
      · rintro ⟨minutes, -, same, -, before⟩
        cases minutes with
        | zero => simpa using same.symm
        | succ minutes =>
          have missed := before 0 (by omega)
          rw [Nat.cast_zero, Int.zero_mul, Int.add_zero, first] at missed
          cases missed
    · rw [ih]
      constructor
      · rintro ⟨minutes, inside, same, fits, before⟩
        refine ⟨minutes + 1, by omega, by rw [same, minute_add], fits, fun earlier earlierInside => ?_⟩
        cases earlier with
        | zero => simpa using first
        | succ earlier => rw [← minute_add, before earlier (by omega)]
      · rintro ⟨minutes, inside, same, fits, before⟩
        cases minutes with
        | zero =>
          rw [Nat.cast_zero, Int.zero_mul, Int.add_zero] at same
          exact absurd (same ▸ fits) first
        | succ minutes =>
          refine ⟨minutes, by omega, by rw [same, minute_add], fits, fun earlier earlierInside => ?_⟩
          rw [minute_add, before (earlier + 1) (by omega)]

theorem mapLocal_eq_some {change : ℤ → ℤ} {point start : ℤ} :
    mapLocal zone change point = some start ↔ zone.fromLocal (change (zone.toLocal point)) = .single start := by
  rw [mapLocal]
  cases zone.fromLocal (change (zone.toLocal point)) <;> simp [LocalResult.single?]

theorem nextCrontabOccurrence_iff (isNext : IsNext now (MatchesCrontab zone schedule) next) :
    nextCrontabOccurrence zone now schedule = some next ↔ CrontabInReach zone schedule now next := by
  obtain ⟨⟨-, -, fits⟩, -⟩ := isNext
  rw [nextCrontabOccurrence]
  constructor
  · intro found
    obtain ⟨whole, seconds, found⟩ := Option.bind_eq_some_iff.mp found
    obtain ⟨start, fraction, found⟩ := Option.bind_eq_some_iff.mp found
    obtain ⟨minutes, inside, same, -, before⟩ := findCrontabMinute_eq_some.mp found
    simp only [minute_add] at same before
    exact ⟨start, ⟨whole, mapLocal_eq_some.mp seconds, mapLocal_eq_some.mp fraction⟩, minutes, inside, same, before⟩
  · rintro ⟨start, ⟨whole, seconds, fraction⟩, minutes, inside, same, before⟩
    simp only [← minute_add] at same before
    refine Option.bind_eq_some_iff.mpr ⟨whole, mapLocal_eq_some.mpr seconds, ?_⟩
    refine Option.bind_eq_some_iff.mpr ⟨start, mapLocal_eq_some.mpr fraction, ?_⟩
    exact findCrontabMinute_eq_some.mpr ⟨minutes, inside, same, fits, before⟩

end Crontab

/-- The searches find the least match exactly if it is in their reach. -/
theorem nextOccurrence_finds_least (zone : Zone) (now : ℤ) :
    (∀ timeSecs days, FindsLeast now (MatchesTimeOfDay zone timeSecs days)
        (nextTimeOfDayOccurrence zone now timeSecs days) ↔
      ∀ next, IsNext now (MatchesTimeOfDay zone timeSecs days) next →
        TimeOfDayInReach zone timeSecs days now next) ∧
    ∀ schedule, FindsLeast now (MatchesCrontab zone schedule) (nextCrontabOccurrence zone now schedule) ↔
      ∀ next, IsNext now (MatchesCrontab zone schedule) next → CrontabInReach zone schedule now next := by
  constructor
  · intro timeSecs days
    rw [findsLeast_iff]
    exact forall₂_congr fun next isNext => nextTimeOfDayOccurrence_iff isNext
  · intro schedule
    rw [findsLeast_iff]
    exact forall₂_congr fun next isNext => nextCrontabOccurrence_iff isNext

section Skipped

/-- A zone whose clock is put forward by an hour. -/
def Zone.springForward (change : ℤ) : Zone where
  toLocal point := if point < change then point else point + nanosPerHour
  fromLocal civil :=
    if civil < change then .single civil
    else if civil < change + nanosPerHour then .none
    else .single (civil - nanosPerHour)
  mem_points point civil := by
    have hour : 0 < nanosPerHour := by decide
    split_ifs <;> simp [LocalResult.points] <;> omega

/-- Sunday the eleventh of January 1970, two o'clock. -/
def sundayChange : Zone := .springForward (civilTime 10 2 0)

/-- A week before the clock is put forward, half past two has passed: the only other Sunday of the fourteen
dates has no half past two, and nothing is found. -/
theorem nextTimeOfDayOccurrence_misses :
    ¬ FindsLeast (civilTime 3 3 0) (MatchesTimeOfDay sundayChange 9000 (some ⟨[.sun]⟩))
      (nextTimeOfDayOccurrence sundayChange (civilTime 3 3 0) 9000 (some ⟨[.sun]⟩)) := by
  intro finds
  have later : civilTime 3 3 0 < civilTime 17 1 30 := by decide
  have fits : MatchesTimeOfDay sundayChange 9000 (some ⟨[.sun]⟩) (civilTime 17 1 30) := by
    refine ⟨by decide, fun filter member => ?_⟩
    obtain rfl := Option.some.inj member
    decide
  obtain ⟨next, found, -⟩ := finds ⟨civilTime 17 1 30, later, fits⟩
  have none : nextTimeOfDayOccurrence sundayChange (civilTime 3 3 0) 9000 (some ⟨[.sun]⟩) = none := by decide
  rw [none] at found
  cases found

end Skipped

end CueShell
