import CueShell.Model.Scheduler.Commands
import CueShell.Model.TriggerClock
import CueShell.Proofs.ScheduleWords

/-! # The range of next triggers

The parsers check durations against the range of durations, not against the range of instants. A next
trigger is in range exactly where the current instant and the period, or what is left of the delay,
are below the limit of instants together; the calendar schedules always are.
-/

namespace CueShell

variable {zone : Zone} {clock : ClockReading} {schedule : CronSchedule} {elapsed : Duration}

/-- The duration that a schedule is written with. -/
def CronSchedule.duration? : CronSchedule → Option Duration
  | .interval period => some period
  | .delay after => some after
  | _ => none

/-- The period of a schedule, or what is left of its delay. -/
def CronSchedule.remaining (elapsed : Duration) : CronSchedule → Duration
  | .interval period => period
  | .delay after => after - elapsed
  | _ => 0

/-- Dates of the calendar library are less than so many nanoseconds away from the epoch. -/
def dateTimeLimit : ℤ := 2 ^ 43 * nanosPerSecond

/-- The clocks show dates that the calendar library has, and the monotonic clock is far from its limit. -/
structure ClockReading.Plausible (clock : ClockReading) (zone : Zone) (schedule : CronSchedule) : Prop where
  instant : clock.instant + 2 ^ 44 * 1000000000 < instantLimit
  wall : -dateTimeLimit < clock.wallLater
  target : ∀ target, schedule.nextOccurrence zone clock.wall = some target → target < dateTimeLimit

/-- The durations of the schedule fit, and its next trigger is computed without a panic. -/
def TriggerInRange (zone : Zone) (clock : ClockReading) (schedule : CronSchedule) (elapsed : Duration) : Prop :=
  (∀ duration ∈ schedule.duration?, duration < durationLimit) ∧
    nextTriggerChecked zone clock schedule elapsed ≠ none

/-- The sources of schedules: a `:cron` command and the stored text of a cron. -/
def CronSchedule.Known (schedule : CronSchedule) : Prop :=
  schedule.Accepted ∨ ∃ text, parseScheduleText text = some schedule

theorem CronSchedule.Known.read (known : schedule.Known) : schedule.Read := by
  rcases known with accepted | ⟨text, stored⟩
  · exact accepted.read
  · exact parseScheduleText_read stored

theorem Duration.Read.fits {duration : ℕ} (read : Duration.Read duration) : duration < durationLimit := by
  obtain ⟨count, small, shape⟩ := read
  replace shape : duration = count * 1000000 ∨ duration = count * 1000000000 := shape
  rw [durationLimit]
  omega

/-- The arithmetic of parsing stays in range. -/
theorem CronSchedule.Read.durations_fit (read : schedule.Read) :
    ∀ duration ∈ schedule.duration?, duration < durationLimit := by
  cases read with
  | interval read => simpa [CronSchedule.duration?] using read.fits
  | delay read => simpa [CronSchedule.duration?] using read.fits
  | _ => simp [CronSchedule.duration?]

theorem checkedInstantAdd_ne_none {instant wait : ℕ} :
    checkedInstantAdd instant wait ≠ none ↔ instant + wait < instantLimit := by
  rw [checkedInstantAdd]
  split_ifs with fits <;> simp [fits]

/-- Dates are too close together to leave the range. -/
theorem ClockReading.Plausible.fits (reading : clock.Plausible zone schedule) {target : ℤ}
    (found : schedule.nextOccurrence zone clock.wall = some target) :
    clock.instant + (target - clock.wallLater).toNat < instantLimit := by
  have late := reading.target target found
  have early := reading.wall
  have far := reading.instant
  simp only [dateTimeLimit, nanosPerSecond] at late early
  omega

theorem calendar_in_range (reading : clock.Plausible zone schedule) :
    (match schedule.nextOccurrence zone clock.wall with
      | none => some none
      | some target =>
          (checkedInstantAdd clock.instant (target - clock.wallLater).toNat).map some) ≠ none := by
  cases found : schedule.nextOccurrence zone clock.wall with
  | none => simp
  | some target => simpa using checkedInstantAdd_ne_none.mpr (reading.fits found)

theorem nextTriggerChecked_ne_none (reading : clock.Plausible zone schedule) :
    nextTriggerChecked zone clock schedule elapsed ≠ none ↔
      clock.instant + schedule.remaining elapsed < instantLimit := by
  have running : clock.instant + 0 < instantLimit := by
    have := reading.instant
    omega
  cases schedule with
  | interval period =>
    simpa [nextTriggerChecked, CronSchedule.remaining] using checkedInstantAdd_ne_none
  | delay after =>
    rw [nextTriggerChecked]
    split_ifs with late
    · simpa [CronSchedule.remaining, late.1] using running
    · simpa [CronSchedule.remaining] using checkedInstantAdd_ne_none
  | timeOfDay => exact iff_of_true (calendar_in_range reading) running
  | preset => exact iff_of_true (calendar_in_range reading) running
  | crontab => exact iff_of_true (calendar_in_range reading) running

/-- For every schedule that a command or a stored text yields, and every elapsed time: everything stays in
range exactly where the current instant and the rest of the duration fit together. -/
theorem triggerInRange_iff (zone : Zone) (clock : ClockReading) (schedule : CronSchedule)
    (elapsed : Duration) (known : schedule.Known) (reading : clock.Plausible zone schedule) :
    TriggerInRange zone clock schedule elapsed ↔
      clock.instant + schedule.remaining elapsed < instantLimit := by
  rw [TriggerInRange, and_iff_right known.read.durations_fit]
  exact nextTriggerChecked_ne_none reading

/-- A delay of a year, of which a day has passed. -/
theorem triggerInRange_year :
    TriggerInRange .utc ⟨0, 0, 0⟩ (.delay (.fromSecs 31536000)) (.fromSecs 86400) := by
  have stored : parseScheduleText "in 365d" = some (.delay (.fromSecs 31536000)) := by decide
  refine (triggerInRange_iff _ _ _ _ (.inr ⟨_, stored⟩) ⟨by decide, by decide, ?_⟩).mpr (by decide)
  exact fun target found => absurd found (by simp [CronSchedule.nextOccurrence])

/-- The largest period that a command takes is out of range at any time. -/
theorem trigger_overflows :
    ∃ schedule : CronSchedule, schedule.Accepted ∧
      ∀ zone clock elapsed, nextTriggerChecked zone clock schedule elapsed = none := by
  refine ⟨.interval (.fromSecs 18446744073709551615), ?_, fun zone clock elapsed => ?_⟩
  · exact ⟨["every", "18446744073709551615s", "true"], ⟨0, 0⟩, .every (.fromSecs 18446744073709551615), 2,
      by decide, by decide⟩
  · have large : ¬clock.instant + Duration.fromSecs 18446744073709551615 < instantLimit := by
      simp only [Duration.fromSecs, instantLimit]
      omega
    simp [nextTriggerChecked, checkedInstantAdd, large]

section Scheduler

variable {env : Env} {state : SchedulerState} {result : Option ℕ}

/-- What the clocks show while the scheduler computes a next trigger. -/
def Env.clockAt (env : Env) (question : ℕ) : CronSchedule → ClockReading
  | .interval _ | .delay _ => ⟨env.instant question, 0, 0⟩
  | .timeOfDay _ _ | .preset _ | .crontab _ =>
      ⟨env.instant (question + 2), env.wall question, env.wall (question + 1)⟩

theorem checkedInstantAdd_map {instant wait : ℕ}
    (computed : (checkedInstantAdd instant wait).map some = some result) : some (instant + wait) = result := by
  rw [checkedInstantAdd] at computed
  split_ifs at computed
  · exact Option.some.inj computed
  · cases computed

/-- Where nothing panics, the scheduler computes the same next trigger. -/
theorem nextTriggerInstant_eq
    (computed : nextTriggerChecked env.zone (env.clockAt state.question schedule) schedule elapsed =
      some result) :
    (nextTriggerInstant env schedule elapsed state).1 = result := by
  have calendar : ∀ target : Option ℤ,
      (match target with
        | none => some none
        | some target => (checkedInstantAdd (env.instant (state.question + 2))
            (target - env.wall (state.question + 1)).toNat).map some) = some result →
      ((match target with
        | none => return none
        | some target => do return some (← instantFromLocal env target) : Sched (Option ℕ))
          { state with question := state.question + 1 }).1 = result := by
    intro target known
    cases target with
    | none => exact Option.some.inj known
    | some target => exact checkedInstantAdd_map known
  cases schedule with
  | interval period => exact checkedInstantAdd_map computed
  | delay after =>
    rw [nextTriggerChecked] at computed
    rw [nextTriggerInstant]
    split_ifs at computed ⊢
    · exact Option.some.inj computed
    · exact checkedInstantAdd_map computed
  | timeOfDay timeSecs days => exact calendar _ computed
  | preset name => exact calendar _ computed
  | crontab expr => exact calendar _ computed

end Scheduler

end CueShell
