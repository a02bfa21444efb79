import CueShell.Proofs.ScheduleWords

/-! # Stored schedules are read back

Crons are stored with the printed text of their schedule. Every schedule that a command or a stored
text yields is read back from its text.
-/

namespace CueShell

/-- The words of a printed schedule are those the stored text is split into. -/
theorem CronSchedule.Read.split_display {schedule : CronSchedule} (read : schedule.Read) :
    Text.trim schedule.display.toList = schedule.display.toList ∧
      Text.splitWhitespace schedule.display.toList = schedule.displayWords := by
  rw [read.display_eq]
  exact ⟨Text.trim_intercalate read.displayWords_isWord,
    Text.splitWhitespace_intercalate read.displayWords_isWord⟩

theorem CronSchedule.Read.parse_display {schedule : CronSchedule} (read : schedule.Read) :
    parseScheduleText schedule.display = some schedule := by
  obtain ⟨trimmed, split⟩ := read.split_display
  cases read with
  | interval read positive =>
    simp [parseScheduleText, trimmed, split, displayWords, parseScheduleDuration_format read positive]
  | delay read positive =>
    simp [parseScheduleText, trimmed, split, displayWords, parseScheduleDuration_format read positive]
  | @timeOfDay timeSecs days read named =>
    cases days with
    | none =>
      simp [parseScheduleText, trimmed, split, displayWords, parseAtSchedule, parseAtDays,
        parseTimeOfDay_timeText read]
    | some days =>
      simp [parseScheduleText, trimmed, split, displayWords, parseAtSchedule, parseAtDays,
        parseTimeOfDay_timeText read, parseDayFilter_display (named days rfl)]
  | @preset name =>
    cases name <;> simp [parseScheduleText, trimmed, split, displayWords, CronPreset.display]
  | crontab read =>
    obtain ⟨five, same⟩ := CrontabSchedule.joined_fields read
    simp [parseScheduleText, trimmed, split, displayWords, five, same, CrontabSchedule.parse_expr read]

/-- For every schedule that the stored-text parser or the resolver can produce, the stored-text
parser reads the schedule's own text back as that schedule. -/
theorem CronSchedule.parseScheduleText_display (schedule : CronSchedule)
    (produced : (∃ text, parseScheduleText text = some schedule) ∨ schedule.Accepted) :
    parseScheduleText schedule.display = some schedule := by
  rcases produced with ⟨text, stored⟩ | accepted
  · exact (parseScheduleText_read stored).parse_display
  · exact accepted.read.parse_display

/-- The period of a day, given in hours, is stored in days. -/
theorem CronSchedule.parseScheduleText_display_day :
    CronSchedule.Accepted (.interval (.fromSecs 86400)) ∧
      parseScheduleText (CronSchedule.display (.interval (.fromSecs 86400))) =
        some (.interval (.fromSecs 86400)) := by
  have accepted : CronSchedule.Accepted (.interval (.fromSecs 86400)) :=
    ⟨["every", "24h"], ⟨0, 0⟩, .every (.fromSecs 86400), 2, by decide, by decide⟩
  exact ⟨accepted, CronSchedule.parseScheduleText_display _ (.inr accepted)⟩

end CueShell
