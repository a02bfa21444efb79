import CueShell.Proofs.ScheduleWords

/-! # The characters of a printed schedule

A crontab field that is read has only digits, letters and the four signs of crontab items, and does
not start like a job or cron ID. So every word of a printed schedule is plain.
-/

namespace CueShell

/-- The characters a schedule is printed with. -/
def isScheduleChar (c : Char) : Bool :=
  c.isAlphanum || c == '*' || c == ',' || c == '-' || c == '/' || c == ':'

section Plain

variable {word : List Char}

theorem isScheduleChar_cases {p : Char → Prop} (alphanum : ∀ c : Char, c.isAlphanum = true → p c)
    (signs : ∀ c ∈ ['*', ',', '-', '/', ':'], p c) {c : Char} (printed : isScheduleChar c = true) :
    p c := by
  simp only [isScheduleChar, Bool.or_eq_true, beq_iff_eq] at printed
  rcases printed with ((((letter | rfl) | rfl) | rfl) | rfl) | rfl
  · exact alphanum c letter
  all_goals exact signs _ (by simp)

theorem isDelimiter_of_scheduleChar {c : Char} (printed : isScheduleChar c = true) :
    isDelimiter c = false := by
  have signs : ∀ c ∈ ['*', ',', '-', '/', ':'], isDelimiter c = false :=
    List.all_iff_forall_prop.mp rfl
  exact isScheduleChar_cases (fun c letter => not_delimiter_of_ident (by simp [isIdentChar, letter]))
    signs printed

theorem operator_sign : ∀ operator ∈ operatorTexts, ∃ c ∈ operator, isScheduleChar c = false := by
  intro operator member
  have signed : (operatorTexts.all fun operator => operator.any fun c => !isScheduleChar c) = true := by
    decide
  simpa using List.all_eq_true.mp signed operator member

theorem operatorFree_of_scheduleChars (printed : ∀ c ∈ word, isScheduleChar c = true) :
    operatorFree word = true := by
  induction word with
  | nil => rfl
  | cons c word ih =>
    have none : startsWithOperator (c :: word) = none := by
      rw [startsWithOperator_eq_none]
      intro operator member front
      obtain ⟨sign, inside, other⟩ := operator_sign operator member
      exact absurd (printed sign (front.subset inside)) (by simp [other])
    simp [operatorFree, none, ih fun d member => printed d (by simp [member])]

theorem plainWord_of_scheduleChars (nonempty : word ≠ [])
    (printed : ∀ c ∈ word, isScheduleChar c = true) (noId : tryIdKind word = none) :
    plainWord word = true := by
  refine plainWord_iff.mpr ⟨nonempty, fun c member => isDelimiter_of_scheduleChar (printed c member), ?_,
    operatorFree_of_scheduleChars printed, by simp [idStable, idRefAt, noId]⟩
  intro quote
  have inside := List.mem_of_head? quote
  exact absurd (printed _ inside) (by decide)

end Plain

section Fields

/-- All digits, or all lower-case letters and at least two of them. -/
def CronValueText (text : List Char) : Prop :=
  text ≠ [] ∧ (∀ c ∈ text, c.isDigit = true) ∨
    ∃ c d rest, text = c :: d :: rest ∧ c.isLower = true ∧ d.isLower = true ∧
      ∀ e ∈ rest, e.isLower = true

/-- Every name is two or more lower-case letters. -/
def LowerNames (names : List (String × ℕ)) : Prop :=
  ∀ entry ∈ names, 2 ≤ entry.1.toList.length ∧ ∀ c ∈ entry.1.toList, c.isLower = true

theorem lowerNames_of_all {names : List (String × ℕ)}
    (lower : (names.all fun entry => 2 ≤ entry.1.toList.length ∧ entry.1.toList.all Char.isLower) = true) :
    LowerNames names := by
  intro entry member
  simpa using List.all_eq_true.mp lower entry member

theorem lowerNames_days : LowerNames dayNames := by
  apply lowerNames_of_all
  decide

theorem lowerNames_months : LowerNames monthNames := by
  apply lowerNames_of_all
  decide

theorem parseCronValue_text {names : List (String × ℕ)} (lower : LowerNames names) {input : List Char}
    {value : ℕ} (found : parseCronValue names input = some value) : CronValueText input := by
  rw [parseCronValue, Option.or_eq_some_iff] at found
  rcases found with number | ⟨-, named⟩
  · obtain ⟨nonempty, digits, -⟩ := Text.parseDigits_eq_some number
    exact .inl ⟨nonempty, digits⟩
  · obtain ⟨entry, found, rfl⟩ := Option.map_eq_some_iff.mp named
    have same : entry.1.toList = input := by simpa using List.find?_some found
    obtain ⟨long, letters⟩ := lower entry (List.mem_of_find?_eq_some found)
    rw [same] at long letters
    match input, long, letters with
    | c :: d :: rest, _, letters =>
      exact .inr ⟨c, d, rest, rfl, letters c (by simp), letters d (by simp),
        fun e member => letters e (by simp [member])⟩

theorem isScheduleChar_of_isDigit {c : Char} (digit : c.isDigit = true) : isScheduleChar c = true := by
  simp [isScheduleChar, Char.isAlphanum, digit]

theorem isScheduleChar_of_isLower {c : Char} (lower : c.isLower = true) : isScheduleChar c = true := by
  have letter : c.isAlpha = (c.isUpper || c.isLower) := rfl
  simp [isScheduleChar, Char.isAlphanum, letter, lower]

theorem isDigit_of_isLower {c : Char} (lower : c.isLower = true) : c.isDigit = false := by
  by_contra digit
  have bounds := Char.isDigit_iff_toNat.mp (by simpa using digit)
  have nine : '9'.toNat = 57 := rfl
  have letter : 97 ≤ c.toNat ∧ c.toNat ≤ 122 := by
    have between : (decide (c.val ≥ 'a'.val) && decide (c.val ≤ 'z'.val)) = true := lower
    simpa [UInt32.le_iff_toNat_le] using between
  omega

/-- What a crontab item may be: signs, digits and names, and no letter in front of a digit. -/
structure CronItemText (text : List Char) : Prop where
  nonempty : text ≠ []
  printed : ∀ c ∈ text, isScheduleChar c = true
  head : ∀ c d rest, text = c :: d :: rest → c.isLower = true → d.isDigit = false

theorem CronValueText.printed {text : List Char} (value : CronValueText text) :
    ∀ c ∈ text, isScheduleChar c = true := by
  rcases value with ⟨-, digits⟩ | ⟨c, d, rest, rfl, first, second, others⟩
  · exact fun c member => isScheduleChar_of_isDigit (digits c member)
  · simp only [List.forall_mem_cons]
    exact ⟨isScheduleChar_of_isLower first, isScheduleChar_of_isLower second,
      fun e member => isScheduleChar_of_isLower (others e member)⟩

/-- An item that starts with a value. -/
theorem CronValueText.item {text back : List Char} (value : CronValueText text)
    (printed : ∀ c ∈ back, isScheduleChar c = true) : CronItemText (text ++ back) where
  nonempty := by
    rcases value with ⟨nonempty, -⟩ | ⟨c, d, rest, rfl, -⟩
    · simp [nonempty]
    · simp
  printed c member := by
    rcases List.mem_append.mp member with member | member
    · exact value.printed c member
    · exact printed c member
  head c d rest same lower := by
    rcases value with ⟨nonempty, digits⟩ | ⟨c', d', rest', rfl, -, second, -⟩
    · -- The first character is a digit.
      obtain ⟨e, more, rfl⟩ := List.exists_cons_of_ne_nil nonempty
      obtain ⟨rfl, -⟩ := List.cons.inj same
      exact absurd (digits e (by simp)) (by simp [isDigit_of_isLower lower])
    · obtain ⟨-, same⟩ := List.cons.inj same
      obtain ⟨rfl, -⟩ := List.cons.inj same
      exact isDigit_of_isLower second

theorem cronItemText_star {back : List Char} (printed : ∀ c ∈ back, isScheduleChar c = true) :
    CronItemText ('*' :: back) where
  nonempty := by simp
  printed := List.forall_mem_cons.mpr ⟨rfl, printed⟩
  head c d rest same lower := by
    obtain ⟨rfl, -⟩ := List.cons.inj same
    exact absurd lower (by decide)

theorem parseAsciiU32_printed {text : List Char} {value : ℕ} (found : parseAsciiU32 text = some value) :
    ∀ c ∈ text, isScheduleChar c = true :=
  fun c member => isScheduleChar_of_isDigit ((Text.parseDigits_eq_some found).2.1 c member)

/-- A range of a crontab item starts with a value, whatever is done with its values. -/
theorem cronRange_text {names : List (String × ℕ)} (lower : LowerNames names) {range : List Char}
    {both : ℕ → ℕ → Option (List ℕ)} {one : ℕ → Option (List ℕ)} {values : List ℕ}
    (found : (match Text.splitOnce '-' range with
      | some (start, stop) => do
          let start ← parseCronValue names start
          let stop ← parseCronValue names stop
          both start stop
      | none => do
          let value ← parseCronValue names range
          one value) = some values) :
    ∃ front back, range = front ++ back ∧ CronValueText front ∧
      ∀ c ∈ back, isScheduleChar c = true := by
  split at found
  next start stop split =>
    obtain ⟨first, firstRead, found⟩ := Option.bind_eq_some_iff.mp found
    obtain ⟨second, secondRead, -⟩ := Option.bind_eq_some_iff.mp found
    refine ⟨start, '-' :: stop, Text.splitOnce_eq_some split, parseCronValue_text lower firstRead, ?_⟩
    exact List.forall_mem_cons.mpr ⟨rfl, (parseCronValue_text lower secondRead).printed⟩
  next =>
    obtain ⟨value, read, -⟩ := Option.bind_eq_some_iff.mp found
    exact ⟨range, [], by simp, parseCronValue_text lower read, by simp⟩

theorem parseCronPart_text {names : List (String × ℕ)} (lower : LowerNames names) {part : List Char}
    {min max : ℕ} {values : List ℕ} (found : parseCronPart min max names part = some values) :
    CronItemText part := by
  unfold parseCronPart at found
  dsimp only at found
  split at found
  next range stepText split =>
    obtain ⟨step, read, found⟩ := Option.bind_eq_some_iff.mp found
    split at found
    next => exact absurd found (by simp)
    next =>
      obtain ⟨front, back, rfl, value, printed⟩ := cronRange_text lower found
      rw [Text.splitOnce_eq_some split, List.append_assoc]
      have stepped : ∀ c ∈ '/' :: stepText, isScheduleChar c = true :=
        List.forall_mem_cons.mpr ⟨rfl, parseAsciiU32_printed read⟩
      refine value.item fun c member => ?_
      rcases List.mem_append.mp member with member | member
      · exact printed c member
      · exact stepped c member
  next =>
    obtain ⟨front, back, rfl, value, printed⟩ := cronRange_text lower found
    exact value.item printed

theorem parseCronItem_text {names : List (String × ℕ)} (lower : LowerNames names) {part : List Char}
    (dark : ∀ c ∈ part, Text.isWhiteSpace c = false) {min max : ℕ} {values : List ℕ}
    (found : parseCronItem min max names part = some values) : CronItemText part := by
  simp only [parseCronItem, Text.trim_dark dark] at found
  split_ifs at found with empty star
  · rw [star]
    exact cronItemText_star (by simp)
  · split at found
    next stepText strip =>
      obtain ⟨count, read, -⟩ := Option.bind_eq_some_iff.mp found
      obtain ⟨front, same⟩ := Option.ite_none_right_eq_some.mp strip
      obtain ⟨more, rfl⟩ := List.isPrefixOf_iff_prefix.mp front
      obtain rfl : more = stepText := by simpa using same
      exact cronItemText_star (List.forall_mem_cons.mpr ⟨rfl, parseAsciiU32_printed read⟩)
    next => exact parseCronPart_text lower found

theorem isScheduleChar_of_toLower {c : Char} (printed : isScheduleChar c.toLower = true) :
    isScheduleChar c = true := by
  by_cases upper : c.isUpper = true
  · have letter : c.isAlpha = (c.isUpper || c.isLower) := rfl
    simp [isScheduleChar, Char.isAlphanum, letter, upper]
  · rwa [Text.toLower_of_not_upper (by simpa using upper)] at printed

theorem mapM_mem {α β : Type} {f : α → Option β} {inputs : List α} {outputs : List β}
    (found : inputs.mapM f = some outputs) : ∀ input ∈ inputs, ∃ output, f input = some output := by
  induction inputs generalizing outputs with
  | nil => simp
  | cons input rest ih =>
    rw [List.mapM_cons] at found
    obtain ⟨output, first, found⟩ := Option.bind_eq_some_iff.mp found
    obtain ⟨others, tail, -⟩ := Option.bind_eq_some_iff.mp found
    exact List.forall_mem_cons.mpr ⟨⟨output, first⟩, ih tail⟩

/-- The folded field is items with commas between. -/
theorem parseCronField_items {names : List (String × ℕ)} (lower : LowerNames names) {field : List Char}
    (word : Text.IsWord field) {min max : ℕ} {values : List ℕ}
    (found : parseCronField field min max names = some values) :
    ∃ items, items ≠ [] ∧ (∀ item ∈ items, CronItemText item) ∧
      Text.toAsciiLowercase field = [','].intercalate items := by
  simp only [parseCronField, word.trim] at found
  obtain ⟨parts, read, -⟩ := Option.map_eq_some_iff.mp found
  have joined : [','].intercalate ((Text.toAsciiLowercase field).splitOn ',') =
      Text.toAsciiLowercase field := List.intercalate_splitOn ..
  refine ⟨(Text.toAsciiLowercase field).splitOn ',', List.splitOn_ne_nil _ _, ?_, joined.symm⟩
  intro item member
  obtain ⟨output, inner⟩ := mapM_mem read item member
  refine parseCronItem_text lower (fun c inside => ?_) inner
  have folded : c ∈ [','].intercalate ((Text.toAsciiLowercase field).splitOn ',') :=
    Text.mem_intercalate_of_mem member inside
  rw [joined, Text.toAsciiLowercase] at folded
  obtain ⟨d, original, rfl⟩ := List.mem_map.mp folded
  exact Text.isWhiteSpace_toLower d (word.2 d original)

/-- A letter in front of a digit would be the start of the first item. -/
theorem items_head {items : List (List Char)} (texts : ∀ item ∈ items, CronItemText item) {c d : Char}
    {rest : List Char} (shape : [','].intercalate items = c :: d :: rest) (letter : c.isLower = true) :
    d.isDigit = false := by
  cases items with
  | nil => exact absurd shape (by simp)
  | cons first others =>
    have text := texts first (by simp)
    obtain ⟨back, joined, behind⟩ := Text.intercalate_cons_shape ',' first others
    rw [joined] at shape
    cases first with
    | nil => exact absurd rfl text.nonempty
    | cons e more =>
      obtain ⟨rfl, behindFirst⟩ := List.cons.inj shape
      cases more with
      | nil =>
        obtain rfl : back = d :: rest := behindFirst
        obtain rfl : d = ',' := behind d (by simp)
        rfl
      | cons f more =>
        obtain ⟨rfl, -⟩ := List.cons.inj behindFirst
        exact text.head _ _ more rfl letter

theorem tryIdKind_eq_none {word : List Char}
    (head : ∀ c d rest, word = c :: d :: rest → c = 'J' ∨ c = 'C' → d.isDigit = false) :
    tryIdKind word = none := by
  fun_cases tryIdKind word
  · next digit rest isDigit =>
    exact absurd (head 'J' digit rest rfl (.inl rfl)) (by simp [isDigit])
  · rfl
  · next digit rest isDigit =>
    exact absurd (head 'C' digit rest rfl (.inr rfl)) (by simp [isDigit])
  · rfl
  · rfl

theorem parseCronField_plain {names : List (String × ℕ)} (lower : LowerNames names) {field : List Char}
    (word : Text.IsWord field) {min max : ℕ} {values : List ℕ}
    (found : parseCronField field min max names = some values) : plainWord field = true := by
  obtain ⟨items, nonempty, texts, folded⟩ := parseCronField_items lower word found
  have printed : ∀ c ∈ Text.toAsciiLowercase field, isScheduleChar c = true := by
    rw [folded]
    exact Text.forall_mem_intercalate rfl fun item member => (texts item member).printed
  refine plainWord_of_scheduleChars word.1 (fun c member => ?_) (tryIdKind_eq_none ?_)
  · exact isScheduleChar_of_toLower (printed c.toLower (List.mem_map_of_mem member))
  · rintro c d rest rfl kind
    rw [Text.toAsciiLowercase, List.map_cons, List.map_cons] at folded
    have digit := items_head texts folded.symm (by rcases kind with rfl | rfl <;> rfl)
    by_contra isDigit
    rw [Text.toLower_of_not_upper (Text.isUpper_of_isDigit (by simpa using isDigit))] at digit
    exact isDigit digit

theorem parseCrontabExpr_plain {fields : List (List Char)} (words : ∀ field ∈ fields, Text.IsWord field)
    {matcher : CrontabExpr} (found : parseCrontabExpr ([' '].intercalate fields) = some matcher) :
    ∀ field ∈ fields, plainWord field = true := by
  rw [parseCrontabExpr, Text.splitWhitespace_intercalate words] at found
  split at found
  next minute hour dayOfMonth month dayOfWeek =>
    have noNames : LowerNames [] := by simp [LowerNames]
    obtain ⟨_, monthDays, found⟩ := Option.bind_eq_some_iff.mp found
    obtain ⟨_, weekDays, found⟩ := Option.bind_eq_some_iff.mp found
    obtain ⟨_, minutes, found⟩ := Option.bind_eq_some_iff.mp found
    obtain ⟨_, hours, found⟩ := Option.bind_eq_some_iff.mp found
    obtain ⟨_, months, -⟩ := Option.bind_eq_some_iff.mp found
    simp only [List.forall_mem_cons, List.not_mem_nil, false_imp_iff, implies_true, and_true] at words ⊢
    obtain ⟨first, second, third, fourth, fifth⟩ := words
    exact ⟨parseCronField_plain noNames first minutes, parseCronField_plain noNames second hours,
      parseCronField_plain noNames third monthDays, parseCronField_plain lowerNames_months fourth months,
      parseCronField_plain lowerNames_days fifth weekDays⟩
  next => exact absurd found (by simp)

end Fields

section Display

theorem plainWord_of_digit {word : List Char} (printed : ∀ c ∈ word, isScheduleChar c = true)
    (digit : ∃ c ∈ word.head?, c.isDigit = true) : plainWord word = true := by
  obtain ⟨c, first, digit⟩ := digit
  obtain ⟨rest, rfl⟩ := List.head?_eq_some_iff.mp first
  refine plainWord_of_scheduleChars (by simp) printed (tryIdKind_eq_none ?_)
  rintro c' d rest' same (rfl | rfl)
  · obtain ⟨rfl, -⟩ := List.cons.inj same
    exact absurd digit (by decide)
  · obtain ⟨rfl, -⟩ := List.cons.inj same
    exact absurd digit (by decide)

theorem head_digit {digits back : List Char} (nonempty : digits ≠ [])
    (all : ∀ c ∈ digits, c.isDigit = true) : ∃ c ∈ (digits ++ back).head?, c.isDigit = true := by
  obtain ⟨c, rest, rfl⟩ := List.exists_cons_of_ne_nil nonempty
  exact ⟨c, rfl, all c (by simp)⟩

theorem plainWord_numbered (number : ℕ) {unit : List Char} (printed : ∀ c ∈ unit, isScheduleChar c = true) :
    plainWord (Nat.toDigits 10 number ++ unit) = true := by
  refine plainWord_of_digit (fun c member => ?_)
    (head_digit Nat.toDigits_ne_nil (isDigit_toDigits number))
  rcases List.mem_append.mp member with member | member
  · exact isScheduleChar_of_isDigit (isDigit_toDigits number c member)
  · exact printed c member

theorem Printed.plainWord {duration : Duration} {text : List Char} (printed : Printed duration text) :
    plainWord text = true := by
  cases printed with
  | millis count small same broken shown =>
    rw [shown]
    exact plainWord_numbered count (List.all_iff_forall_prop.mp rfl)
  | unit count multiplier unit listed fits same broken shown =>
    rw [shown]
    simp only [List.mem_cons, Prod.mk.injEq, List.not_mem_nil, or_false] at listed
    rcases listed with ⟨rfl, rfl⟩ | ⟨rfl, rfl⟩ | ⟨rfl, rfl⟩ <;>
      exact plainWord_numbered count (List.all_iff_forall_prop.mp rfl)
  | days count fits same shown =>
    rw [shown]
    exact plainWord_numbered count (List.all_iff_forall_prop.mp rfl)

theorem timeText_plain (timeSecs : ℕ) : plainWord (timeText timeSecs).toList = true := by
  refine plainWord_of_digit (fun c member => ?_) ?_
  · have clock := timeText_clock timeSecs c member
    rcases Bool.or_eq_true_iff.mp clock with digit | colon
    · exact isScheduleChar_of_isDigit digit
    · rw [beq_iff_eq.mp colon]
      rfl
  · obtain ⟨nonempty, digits, -⟩ := twoDigits_digits (timeSecs / 3600)
    simp only [timeText, String.toList_append, List.append_assoc]
    exact head_digit nonempty digits

theorem shortNames_plain {days : List Weekday} (some : days ≠ []) :
    plainWord ([','].intercalate (days.map fun day => day.shortName.toList)) = true := by
  have length := shortNames_length some
  have dark := shortNames_dark days
  have printed : ∀ c ∈ [','].intercalate (days.map fun day => day.shortName.toList),
      isScheduleChar c = true := by
    refine Text.forall_mem_intercalate rfl fun word member => ?_
    obtain ⟨day, -, rfl⟩ := List.mem_map.mp member
    cases day <;> exact List.all_iff_forall_prop.mp rfl
  refine plainWord_of_scheduleChars (fun empty => ?_) printed (tryIdKind_eq_none ?_)
  · rw [empty] at length
    simp at length
  · intro c d rest shape kind
    have lower := (dark c (by rw [shape]; simp)).2
    rcases kind with rfl | rfl <;> exact absurd lower (by decide)

theorem DayFilter.display_plain {filter : DayFilter} (some : filter.days ≠ []) :
    plainWord filter.display.toList = true := by
  unfold DayFilter.display
  split_ifs
  · decide
  · decide
  · decide
  · have plain := shortNames_plain some
    simpa [Function.comp_def] using plain

/-- The tokenizer reads every word of a printed schedule back. -/
theorem CronSchedule.Read.displayWords_plain {schedule : CronSchedule} (read : schedule.Read) :
    ∀ word ∈ schedule.displayWords, plainWord word = true := by
  cases read with
  | interval read positive =>
    have printed := (formatDurationShort_printed read positive).plainWord
    simp only [displayWords, List.forall_mem_cons, List.not_mem_nil, false_imp_iff, implies_true, and_true]
    exact ⟨by decide, printed⟩
  | delay read positive =>
    have printed := (formatDurationShort_printed read positive).plainWord
    simp only [displayWords, List.forall_mem_cons, List.not_mem_nil, false_imp_iff, implies_true, and_true]
    exact ⟨by decide, printed⟩
  | @timeOfDay timeSecs days read named =>
    have time := timeText_plain timeSecs
    cases days with
    | none =>
      simp only [displayWords, List.forall_mem_cons, List.not_mem_nil, false_imp_iff, implies_true,
        and_true]
      exact ⟨by decide, time⟩
    | some days =>
      have filter := DayFilter.display_plain (named days rfl)
      simp only [displayWords, List.forall_mem_cons, List.not_mem_nil, false_imp_iff, implies_true,
        and_true]
      exact ⟨by decide, time, by decide, filter⟩
  | @preset name =>
    simp only [displayWords, List.mem_singleton, forall_eq]
    cases name <;> decide
  | crontab read =>
    obtain ⟨fields, five, words, shown, matched⟩ := CrontabSchedule.parse_fields read
    rw [shown] at matched
    simp only [displayWords, List.forall_mem_cons, shown, Text.splitWhitespace_intercalate words]
    exact ⟨by decide, parseCrontabExpr_plain words matched⟩

end Display

end CueShell
