import CueShell.Model.CronClock

/-! # Instants and their range

Instants are nanoseconds of the monotonic clock. The standard library keeps their whole seconds in a
signed 64-bit number, and the sum of an instant and a duration beyond that range panics. Here a next
trigger is computed from what the clocks show, with the panics; the scheduler computes it without.
-/

namespace CueShell

/-- The first instant that does not fit. -/
def instantLimit : ℕ := 2 ^ 63 * 1000000000

/-- The first duration that does not fit: whole seconds are unsigned. -/
def durationLimit : ℕ := 2 ^ 64 * 1000000000

/-- The sum of an instant and a duration; `none` is a panic. -/
def checkedInstantAdd (instant : ℕ) (wait : Duration) : Option ℕ :=
  if instant + wait < instantLimit then some (instant + wait) else none

/-- What the clocks show while a next trigger is computed. The wall clock is read for the occurrence and
again for the delay until it. -/
structure ClockReading where
  instant : ℕ
  wall : ℤ
  wallLater : ℤ
deriving DecidableEq, Repr

/-- When a schedule is due next; the outer `none` is a panic, the inner one a schedule that is not due
again. -/
def nextTriggerChecked (zone : Zone) (clock : ClockReading) (schedule : CronSchedule) (elapsed : Duration) :
    Option (Option ℕ) :=
  match schedule with
  | .interval period => (checkedInstantAdd clock.instant period).map some
  | .delay after =>
      if after - elapsed = 0 ∧ elapsed ≠ 0 then some none
      else (checkedInstantAdd clock.instant (after - elapsed)).map some
  | .timeOfDay _ _ | .preset _ | .crontab _ =>
      match schedule.nextOccurrence zone clock.wall with
      | none => some none
      | some target => (checkedInstantAdd clock.instant (target - clock.wallLater).toNat).map some

end CueShell
