import Mathlib.Data.List.Sort
import CueShell.Model.CronClock
import CueShell.Proofs.CrontabText

/-! # The meaning of a crontab expression

A field is a list of parts, a part a range with an optional step. Its meaning is a set of numbers. The
parser accepts exactly the expressions whose parts are in range, and what it builds matches the times in
the sets of the five fields.
-/

namespace CueShell

section Syntax

/-- A string of digits. -/
structure CronNumber where
  digits : List Char
  nonempty : digits ≠ []
  numeric : ∀ c ∈ digits, c.isDigit = true

def CronNumber.value (number : CronNumber) : ℕ := Text.numeral number.digits

/-- A string of letters of any case. -/
structure CronName where
  letters : List Char
  nonempty : letters ≠ []
  alphabetic : ∀ c ∈ letters, c.isAlpha = true

inductive CronTerm where
  | numeric (number : CronNumber)
  | named (name : CronName)

inductive CronSpan where
  | any
  | value (term : CronTerm)
  | range (first last : CronTerm)

/-- A part of a field: a span of values, of which every so many are taken. -/
structure CronPart where
  span : CronSpan
  step : Option CronNumber

def CronTerm.text : CronTerm → List Char
  | .numeric number => number.digits
  | .named name => name.letters

def CronSpan.text : CronSpan → List Char
  | .any => ['*']
  | .value term => term.text
  | .range first last => first.text ++ '-' :: last.text

def CronPart.text (part : CronPart) : List Char :=
  match part.step with
  | some step => part.span.text ++ '/' :: step.digits
  | none => part.span.text

structure CronField where
  parts : List CronPart
  nonempty : parts ≠ []

/-- The text of a field: its parts with commas between. -/
def CronField.text (field : CronField) : List Char := [','].intercalate (field.parts.map CronPart.text)

structure CronFields where
  minute : CronField
  hour : CronField
  dayOfMonth : CronField
  month : CronField
  dayOfWeek : CronField

/-- The five fields with white space between and around them. -/
def CronFields.Writes (fields : CronFields) (expr : List Char) : Prop :=
  Text.splitWhitespace expr =
    [fields.minute.text, fields.hour.text, fields.dayOfMonth.text, fields.month.text, fields.dayOfWeek.text]

instance (fields : CronFields) (expr : List Char) : Decidable (fields.Writes expr) :=
  inferInstanceAs (Decidable (_ = _))

end Syntax

section Meaning

/-- The number that a term stands for, if its name is known. -/
def CronTerm.value (names : List (String × ℕ)) : CronTerm → Option ℕ
  | .numeric number => some number.value
  | .named name =>
      (names.find? fun (known, _) => known.toList == Text.toAsciiLowercase name.letters).map Prod.snd

/-- The first and the last value of a span. -/
def CronSpan.bounds (min max : ℕ) (names : List (String × ℕ)) : CronSpan → Option (ℕ × ℕ)
  | .any => some (min, max)
  | .value term => (term.value names).map fun value => (value, value)
  | .range first last => do
      let first ← first.value names
      let last ← last.value names
      some (first, last)

/-- The ends of the part are known, in order and within the field, and its step is positive. -/
def CronPart.Proper (min max : ℕ) (names : List (String × ℕ)) (part : CronPart) : Prop :=
  (∃ first last, part.span.bounds min max names = some (first, last) ∧ min ≤ first ∧ first ≤ last ∧
    last ≤ max) ∧
  ∀ step ∈ part.step, 0 < step.value

/-- A proper part whose step is a 32-bit number. -/
def CronPart.InRange (min max : ℕ) (names : List (String × ℕ)) (part : CronPart) : Prop :=
  part.Proper min max names ∧ ∀ step ∈ part.step, step.value < 2 ^ 32

/-- The numbers of a part: from its first to its last, as many apart as its step says. -/
def CronPart.Covers (min max : ℕ) (names : List (String × ℕ)) (part : CronPart) (number : ℕ) : Prop :=
  ∃ first last, part.span.bounds min max names = some (first, last) ∧ first ≤ number ∧ number ≤ last ∧
    ∀ step ∈ part.step, step.value ∣ number - first

/-- The numbers of a field are those of its parts. -/
def CronField.Covers (min max : ℕ) (names : List (String × ℕ)) (field : CronField) (number : ℕ) : Prop :=
  ∃ part ∈ field.parts, part.Covers min max names number

namespace CronFields

variable (fields : CronFields)

/-- Every part has a property of its bounds and names. -/
def AllParts (holds : ℕ → ℕ → List (String × ℕ) → CronPart → Prop) : Prop :=
  (∀ part ∈ fields.minute.parts, holds 0 59 [] part) ∧ (∀ part ∈ fields.hour.parts, holds 0 23 [] part) ∧
    (∀ part ∈ fields.dayOfMonth.parts, holds 1 31 [] part) ∧
    (∀ part ∈ fields.month.parts, holds 1 12 monthNames part) ∧
    ∀ part ∈ fields.dayOfWeek.parts, holds 0 7 dayNames part

/-- Seven is another number for Sunday. -/
def TakesWeekday (weekday : ℕ) : Prop :=
  ∃ number, fields.dayOfWeek.Covers 0 7 dayNames number ∧ weekday = if number = 7 then 0 else number

/-- One of the day fields takes every day. -/
def EveryDay : Prop :=
  (∀ day, 1 ≤ day → day ≤ 31 → fields.dayOfMonth.Covers 1 31 [] day) ∨
    ∀ weekday, weekday ≤ 6 → fields.TakesWeekday weekday

/-- Both day fields have to take a day if one of them takes every day; else one of them is enough. -/
def TakesDay (day weekday : ℕ) : Prop :=
  (fields.EveryDay → fields.dayOfMonth.Covers 1 31 [] day ∧ fields.TakesWeekday weekday) ∧
    (¬ fields.EveryDay → fields.dayOfMonth.Covers 1 31 [] day ∨ fields.TakesWeekday weekday)

def Takes (minute hour day month weekday : ℕ) : Prop :=
  fields.minute.Covers 0 59 [] minute ∧ fields.hour.Covers 0 23 [] hour ∧
    fields.month.Covers 1 12 monthNames month ∧ fields.TakesDay day weekday

end CronFields

end Meaning

section Values

variable {values : List ℕ} {min max number step : ℕ}

theorem mem_cronRange : number ∈ cronRange min max ↔ min ≤ number ∧ number ≤ max := by
  rw [cronRange, List.mem_range'_1]
  omega

theorem mem_everyNth : number ∈ everyNth step (cronRange min max) ↔
    min ≤ number ∧ number ≤ max ∧ step ∣ number - min := by
  rw [everyNth, List.mem_map]
  constructor
  · rintro ⟨⟨value, place⟩, member, rfl⟩
    obtain ⟨inside, divides⟩ := List.mem_filter.mp member
    rw [List.mem_zipIdx_iff_getElem?, cronRange] at inside
    obtain ⟨bound, same⟩ := List.getElem?_eq_some_iff.mp inside
    rw [List.length_range'] at bound
    rw [List.getElem_range'] at same
    have offset : value - min = place := by omega
    exact ⟨by omega, by omega, Nat.dvd_of_mod_eq_zero (by simpa [offset] using divides)⟩
  · rintro ⟨low, high, divides⟩
    refine ⟨(number, number - min), List.mem_filter.mpr ⟨?_, ?_⟩, rfl⟩
    · rw [List.mem_zipIdx_iff_getElem?, cronRange]
      refine List.getElem?_eq_some_iff.mpr ⟨by rw [List.length_range']; omega, ?_⟩
      rw [List.getElem_range']
      omega
    · simpa using Nat.mod_eq_zero_of_dvd divides

theorem mem_sortDedup : number ∈ sortDedup values ↔ number ∈ values := by
  rw [sortDedup, List.mem_dedup, List.mem_insertionSort]

/-- Sorted numbers without repetitions are a range exactly if they are the numbers of it. -/
theorem coversFullRange_iff : coversFullRange (sortDedup values) min max = true ↔
    ∀ number, number ∈ values ↔ min ≤ number ∧ number ≤ max := by
  rw [coversFullRange, beq_iff_eq]
  constructor
  · intro same number
    rw [← mem_sortDedup, same, mem_cronRange]
  · intro same
    have sorted : (sortDedup values).Pairwise (· ≤ ·) :=
      (List.pairwise_insertionSort (· ≤ ·) values).sublist (List.dedup_sublist _)
    have ordered : (cronRange min max).Pairwise (· ≤ ·) :=
      (List.pairwise_lt_range' (s := min) (n := max + 1 - min)).imp Nat.le_of_lt
    have nodup : (sortDedup values).Nodup := List.nodup_dedup _
    have nodup' : (cronRange min max).Nodup := List.nodup_range'
    have permuted : (sortDedup values).Perm (cronRange min max) :=
      (List.perm_ext_iff_of_nodup nodup nodup').mpr fun number => by
        rw [mem_sortDedup, mem_cronRange, same]
    exact permuted.eq_of_pairwise (fun a b _ _ => Nat.le_antisymm) sorted ordered

end Values

section Letters

/-- Neither blank nor one of the signs between terms. -/
def isTermChar (c : Char) : Bool := c.isDigit || c.isLower

theorem isTermChar_toLower_of_isAlpha {c : Char} (letter : c.isAlpha = true) :
    c.toLower.isLower = true := by
  by_cases upper : c.isUpper = true
  · exact Text.upper_cases (p := fun c => c.toLower.isLower = true) (by decide) upper
  · rw [Text.toLower_of_not_upper (by simpa using upper)]
    have either : (c.isUpper || c.isLower) = true := letter
    simpa [upper] using either

theorem CronNumber.lower (number : CronNumber) : Text.toAsciiLowercase number.digits = number.digits :=
  Text.toAsciiLowercase_of_forall fun c member => Text.isUpper_of_isDigit (number.numeric c member)

theorem CronTerm.isTermChar (term : CronTerm) :
    ∀ c ∈ Text.toAsciiLowercase term.text, isTermChar c = true := by
  intro c member
  rw [CueShell.isTermChar, Bool.or_eq_true]
  cases term with
  | numeric number =>
    rw [CronTerm.text, number.lower] at member
    exact .inl (number.numeric c member)
  | named name =>
    obtain ⟨letter, inside, rfl⟩ := List.mem_map.mp member
    exact .inr (isTermChar_toLower_of_isAlpha (name.alphabetic letter inside))

theorem CronTerm.nonempty (term : CronTerm) : Text.toAsciiLowercase term.text ≠ [] := by
  rw [Text.toAsciiLowercase, Ne, List.map_eq_nil_iff]
  cases term with
  | numeric number => exact number.nonempty
  | named name => exact name.nonempty

theorem CronTerm.fresh (term : CronTerm) {c : Char} (sign : CueShell.isTermChar c = false) :
    c ∉ Text.toAsciiLowercase term.text :=
  fun member => absurd (term.isTermChar c member) (by simp [sign])

theorem isWhiteSpace_of_isTermChar {c : Char} (letter : isTermChar c = true) :
    Text.isWhiteSpace c = false := by
  rcases (Bool.or_eq_true _ _).mp letter with digit | lower
  · exact Text.isWhiteSpace_of_isDigit digit
  · have bounds : 97 ≤ c.toNat ∧ c.toNat ≤ 122 := by
      have both : (decide (c.val ≥ 'a'.val) && decide (c.val ≤ 'z'.val)) = true := lower
      simpa [UInt32.le_iff_toNat_le] using both
    simp [Text.isWhiteSpace]
    omega

/-- The characters of a part, once its letters are folded. -/
def isPartChar (c : Char) : Bool := isTermChar c || c ∈ ['*', '-', '/']

theorem isWhiteSpace_of_isPartChar {c : Char} (inside : isPartChar c = true) :
    Text.isWhiteSpace c = false := by
  rcases (Bool.or_eq_true _ _).mp inside with letter | sign
  · exact isWhiteSpace_of_isTermChar letter
  · have dark : (['*', '-', '/'].all fun c => !Text.isWhiteSpace c) = true := by decide
    simpa using List.all_eq_true.mp dark c (of_decide_eq_true sign)

theorem CronTerm.isPartChar (term : CronTerm) :
    ∀ c ∈ Text.toAsciiLowercase term.text, isPartChar c = true :=
  fun c member => by rw [CueShell.isPartChar, term.isTermChar c member, Bool.true_or]

theorem CronNumber.isPartChar (number : CronNumber) : ∀ c ∈ number.digits, isPartChar c = true :=
  fun c member => (CronTerm.numeric number).isPartChar c (by rwa [CronTerm.text, number.lower])

theorem toAsciiLowercase_append (front back : List Char) :
    Text.toAsciiLowercase (front ++ back) = Text.toAsciiLowercase front ++ Text.toAsciiLowercase back :=
  List.map_append

theorem toAsciiLowercase_cons (c : Char) (rest : List Char) :
    Text.toAsciiLowercase (c :: rest) = c.toLower :: Text.toAsciiLowercase rest := rfl

theorem toAsciiLowercase_intercalate (parts : List (List Char)) :
    Text.toAsciiLowercase ([','].intercalate parts) =
      [','].intercalate (parts.map Text.toAsciiLowercase) := by
  induction parts with
  | nil => rfl
  | cons first rest ih =>
    cases rest with
    | nil => simp
    | cons second rest =>
      rw [List.intercalate_cons_cons, toAsciiLowercase_append, toAsciiLowercase_append, ih]
      simp only [List.map_cons, List.intercalate_cons_cons]
      rfl

theorem CronSpan.isPartChar (span : CronSpan) :
    ∀ c ∈ Text.toAsciiLowercase span.text, isPartChar c = true := by
  cases span with
  | any =>
    intro c member
    obtain rfl : c = '*' := List.mem_singleton.mp member
    rfl
  | value term => exact term.isPartChar
  | range first last =>
    rw [CronSpan.text, toAsciiLowercase_append, toAsciiLowercase_cons]
    intro c member
    rcases List.mem_append.mp member with inside | inside
    · exact first.isPartChar c inside
    rcases List.mem_cons.mp inside with rfl | inside
    · rfl
    · exact last.isPartChar c inside

theorem CronPart.lower (part : CronPart) :
    Text.toAsciiLowercase part.text =
      match part.step with
      | some step => Text.toAsciiLowercase part.span.text ++ '/' :: step.digits
      | none => Text.toAsciiLowercase part.span.text := by
  rw [CronPart.text]
  split
  next step same => rw [toAsciiLowercase_append, toAsciiLowercase_cons, step.lower]; rfl
  next => rfl

theorem CronPart.isPartChar (part : CronPart) :
    ∀ c ∈ Text.toAsciiLowercase part.text, isPartChar c = true := by
  rw [part.lower]
  split
  next step same =>
    intro c member
    rcases List.mem_append.mp member with inside | inside
    · exact part.span.isPartChar c inside
    rcases List.mem_cons.mp inside with rfl | inside
    · rfl
    · exact step.isPartChar c inside
  next => exact part.span.isPartChar

end Letters

section Reading

variable {min max : ℕ} {names : List (String × ℕ)}

theorem CronNumber.parse (number : CronNumber) :
    parseAsciiU32 number.digits = if number.value < 2 ^ 32 then some number.value else none := by
  rw [parseAsciiU32]
  split_ifs with small
  · exact Text.parseDigits_of_lt number.nonempty number.numeric small
  · rw [Text.parseDigits, if_neg fun fits => small fits.2.2]

/-- A name is not a number. -/
theorem CronName.parse (name : CronName) : parseAsciiU32 (Text.toAsciiLowercase name.letters) = none := by
  rw [Option.eq_none_iff_forall_ne_some]
  intro value found
  obtain ⟨nonempty, digits, -⟩ := Text.parseDigits_eq_some found
  obtain ⟨c, inside⟩ := List.exists_mem_of_ne_nil _ nonempty
  obtain ⟨letter, member, rfl⟩ := List.mem_map.mp inside
  have lower := isTermChar_toLower_of_isAlpha (name.alphabetic letter member)
  exact absurd (digits _ inside) (by simp [isDigit_of_isLower lower])

theorem CronTerm.parse (lower : LowerNames names) (term : CronTerm) {value : ℕ} (small : value < 2 ^ 32) :
    parseCronValue names (Text.toAsciiLowercase term.text) = some value ↔
      term.value names = some value := by
  rw [parseCronValue]
  cases term with
  | numeric number =>
    have unnamed : (names.find? fun (known, _) => known.toList == number.digits) = none := by
      rw [List.find?_eq_none]
      intro entry member same
      obtain ⟨-, letters⟩ := lower entry member
      obtain ⟨c, inside⟩ := List.exists_mem_of_ne_nil _ number.nonempty
      have letter := letters c (by rwa [beq_iff_eq.mp same])
      exact absurd (number.numeric c inside) (by simp [isDigit_of_isLower letter])
    rw [CronTerm.text, number.lower, number.parse, unnamed, CronTerm.value, Option.map_none, Option.or_none,
      Option.ite_none_right_eq_some]
    exact ⟨And.right, fun same => ⟨by rwa [Option.some.inj same], same⟩⟩
  | named name => rw [CronTerm.text, name.parse, Option.none_or, CronTerm.value]

/-- The values of a part whose range is written out. -/
def parseCronSpan (min max : ℕ) (names : List (String × ℕ)) (range : List Char) : Option (List ℕ) :=
  match Text.splitOnce '-' range with
  | some (start, stop) => do
      let start ← parseCronValue names start
      let stop ← parseCronValue names stop
      if start > stop ∨ start < min ∨ stop > max then none else some (cronRange start stop)
  | none => do
      let value ← parseCronValue names range
      if value < min ∨ value > max then none else some [value]

/-- The ends of a span within the field, and the values from the one to the other. -/
def CronSpan.Reads (min max : ℕ) (names : List (String × ℕ)) (span : CronSpan) (values : List ℕ) : Prop :=
  ∃ first last, span.bounds min max names = some (first, last) ∧ min ≤ first ∧ first ≤ last ∧ last ≤ max ∧
    values = cronRange first last

theorem parseCronSpan_value (lower : LowerNames names) (small : max < 2 ^ 32) (term : CronTerm)
    {values : List ℕ} :
    parseCronSpan min max names (Text.toAsciiLowercase term.text) = some values ↔
      (CronSpan.value term).Reads min max names values := by
  rw [parseCronSpan, Text.splitOnce_eq_none (term.fresh rfl)]
  constructor
  · intro found
    obtain ⟨value, read, found⟩ := Option.bind_eq_some_iff.mp found
    obtain ⟨inside, same⟩ := Option.ite_none_left_eq_some.mp found
    have known := (term.parse lower (by omega)).mp read
    refine ⟨value, value, by rw [CronSpan.bounds, known, Option.map_some], by omega, le_rfl, by omega, ?_⟩
    rw [← Option.some.inj same, cronRange, Nat.add_sub_cancel_left, List.range'_one]
  · rintro ⟨first, last, bounds, low, ordered, high, rfl⟩
    obtain ⟨value, known, same⟩ := Option.map_eq_some_iff.mp bounds
    obtain ⟨rfl, rfl⟩ := Prod.mk.inj same
    refine Option.bind_eq_some_iff.mpr ⟨value, (term.parse lower (by omega)).mpr known, ?_⟩
    rw [if_neg (by omega), cronRange, Nat.add_sub_cancel_left, List.range'_one]

theorem parseCronSpan_range (lower : LowerNames names) (small : max < 2 ^ 32) (first last : CronTerm)
    {values : List ℕ} :
    parseCronSpan min max names
        (Text.toAsciiLowercase first.text ++ '-' :: Text.toAsciiLowercase last.text) = some values ↔
      (CronSpan.range first last).Reads min max names values := by
  rw [parseCronSpan, Text.splitOnce_append (first.fresh rfl)]
  constructor
  · intro found
    obtain ⟨start, readStart, found⟩ := Option.bind_eq_some_iff.mp found
    obtain ⟨stop, readStop, found⟩ := Option.bind_eq_some_iff.mp found
    obtain ⟨inside, same⟩ := Option.ite_none_left_eq_some.mp found
    have knownStart := (first.parse lower (by omega)).mp readStart
    have knownStop := (last.parse lower (by omega)).mp readStop
    refine ⟨start, stop, ?_, by omega, by omega, by omega, (Option.some.inj same).symm⟩
    rw [CronSpan.bounds, knownStart, knownStop]
    rfl
  · rintro ⟨start, stop, bounds, low, ordered, high, rfl⟩
    obtain ⟨start', knownStart, bounds⟩ := Option.bind_eq_some_iff.mp bounds
    obtain ⟨stop', knownStop, same⟩ := Option.bind_eq_some_iff.mp bounds
    obtain ⟨rfl, rfl⟩ := Prod.mk.inj (Option.some.inj same)
    refine Option.bind_eq_some_iff.mpr ⟨start', (first.parse lower (by omega)).mpr knownStart, ?_⟩
    refine Option.bind_eq_some_iff.mpr ⟨stop', (last.parse lower (by omega)).mpr knownStop, ?_⟩
    rw [if_neg (by omega)]

/-- The step of a part, if it has one, is a positive 32-bit number. -/
def StepInRange (step : Option CronNumber) : Prop := ∀ number ∈ step, 0 < number.value ∧ number.value < 2 ^ 32

/-- The values of a span that are as many apart as the step says. -/
def stepped (step : Option CronNumber) (values : List ℕ) : List ℕ :=
  match step with
  | some number => everyNth number.value values
  | none => values

theorem stepInRange_some {number : CronNumber} :
    StepInRange (some number) ↔ number.value ≠ 0 ∧ number.value < 2 ^ 32 := by
  rw [StepInRange, ← Nat.pos_iff_ne_zero]
  exact ⟨fun inside => inside number rfl, fun inside other same => Option.some.inj same ▸ inside⟩

theorem CronNumber.parse_positive (number : CronNumber) (use : ℕ → Option (List ℕ)) {values : List ℕ} :
    ((parseAsciiU32 number.digits).bind fun step => if step = 0 then none else use step) = some values ↔
      StepInRange (some number) ∧ use number.value = some values := by
  rw [number.parse, stepInRange_some]
  split_ifs with small
  · rw [Option.bind_some, Option.ite_none_left_eq_some, and_iff_left small]
  · simp only [Option.bind_none, reduceCtorEq, small, and_false, false_and]

/-- What is done with the values of a span can be done after its reading. -/
theorem parseCronSpan_bind (range : List Char) (finish : List ℕ → Option (List ℕ)) :
    (match Text.splitOnce '-' range with
      | some (start, stop) =>
          (parseCronValue names start).bind fun start => (parseCronValue names stop).bind fun stop =>
            if start > stop ∨ start < min ∨ stop > max then Option.none.bind finish
            else (some (cronRange start stop)).bind finish
      | none =>
          (parseCronValue names range).bind fun value =>
            if value < min ∨ value > max then Option.none.bind finish
            else (some [value]).bind finish) =
      (parseCronSpan min max names range).bind finish := by
  rw [parseCronSpan]
  split
  · simp only [Option.bind_eq_bind, Option.bind_assoc, apply_ite (Option.bind · finish)]
  · simp only [Option.bind_eq_bind, Option.bind_assoc, apply_ite (Option.bind · finish)]

/-- A part whose span is written out is read through its span. -/
theorem parseCronPart_stepped {range : List Char} (fresh : '/' ∉ range) (number : CronNumber)
    {values : List ℕ} :
    parseCronPart min max names (range ++ '/' :: number.digits) = some values ↔
      StepInRange (some number) ∧
        ∃ all, parseCronSpan min max names range = some all ∧ values = stepped (some number) all := by
  have split : parseCronPart min max names (range ++ '/' :: number.digits) =
      (parseAsciiU32 number.digits).bind fun step =>
        if step = 0 then none else (parseCronSpan min max names range).bind fun all => some (everyNth step all) := by
    rw [parseCronPart, Text.splitOnce_append fresh]
    refine Option.bind_congr fun step _ => ?_
    split_ifs with zero
    · rfl
    · exact parseCronSpan_bind range fun all => some (everyNth step all)
  rw [split, number.parse_positive fun step =>
    (parseCronSpan min max names range).bind fun all => some (everyNth step all), Option.bind_eq_some_iff]
  simp only [Option.some.injEq, stepped, eq_comm]

theorem parseCronPart_plain {range : List Char} (fresh : '/' ∉ range) :
    parseCronPart min max names range = parseCronSpan min max names range := by
  rw [parseCronPart, Text.splitOnce_eq_none fresh]
  exact (parseCronSpan_bind range some).trans (Option.bind_fun_some _)

/-- A span other than the star starts with a term and has no slash. -/
theorem CronSpan.written {span : CronSpan} (written : span ≠ .any) :
    ∃ (term : CronTerm) (rest : List Char),
      Text.toAsciiLowercase span.text = Text.toAsciiLowercase term.text ++ rest ∧
        '/' ∉ Text.toAsciiLowercase span.text := by
  cases span with
  | any => exact absurd rfl written
  | value term => exact ⟨term, [], (List.append_nil _).symm, term.fresh rfl⟩
  | range first last =>
    refine ⟨first, '-' :: Text.toAsciiLowercase last.text, ?_, ?_⟩
    · rw [CronSpan.text, toAsciiLowercase_append, toAsciiLowercase_cons]
      rfl
    · rw [CronSpan.text, toAsciiLowercase_append, toAsciiLowercase_cons, List.mem_append, List.mem_cons]
      rintro (inside | sign | inside)
      · exact first.fresh rfl inside
      · exact absurd sign (by decide)
      · exact last.fresh rfl inside

theorem CronSpan.parse (lower : LowerNames names) (small : max < 2 ^ 32) {span : CronSpan}
    (written : span ≠ .any) {values : List ℕ} :
    parseCronSpan min max names (Text.toAsciiLowercase span.text) = some values ↔
      span.Reads min max names values := by
  cases span with
  | any => exact absurd rfl written
  | value term => exact parseCronSpan_value lower small term
  | range first last =>
    have folded : Text.toAsciiLowercase (CronSpan.range first last).text =
        Text.toAsciiLowercase first.text ++ '-' :: Text.toAsciiLowercase last.text := by
      rw [CronSpan.text, toAsciiLowercase_append, toAsciiLowercase_cons]
      rfl
    rw [folded]
    exact parseCronSpan_range lower small first last

/-- A part that does not start with a star is read by `parse_cron_part`. -/
theorem parseCronItem_written {part : CronPart} (written : part.span ≠ .any) :
    parseCronItem min max names (Text.toAsciiLowercase part.text) =
      parseCronPart min max names (Text.toAsciiLowercase part.text) := by
  obtain ⟨term, rest, shape, -⟩ := CronSpan.written written
  obtain ⟨c, more, first⟩ := List.exists_cons_of_ne_nil term.nonempty
  have other : c ≠ '*' := by
    rintro rfl
    exact absurd (term.isTermChar '*' (by rw [first]; simp)) (by decide)
  obtain ⟨tail, same⟩ : ∃ tail, Text.toAsciiLowercase part.text = c :: tail := by
    rw [part.lower, shape, first]
    split
    · exact ⟨_, rfl⟩
    · exact ⟨_, rfl⟩
  have unstarred : Text.stripPrefix ['*', '/'] (c :: tail) = none := by
    simp [Text.stripPrefix, Ne.symm other]
  rw [parseCronItem, Text.trim_dark fun c member => isWhiteSpace_of_isPartChar (part.isPartChar c member), same]
  simp [other, unstarred]

/-- The values that a part stands for, if it is in range. -/
def CronPart.Reads (min max : ℕ) (names : List (String × ℕ)) (part : CronPart) (values : List ℕ) : Prop :=
  StepInRange part.step ∧
    ∃ all, part.span.Reads min max names all ∧ values = stepped part.step all

theorem parseCronItem_any (ordered : min ≤ max) (step : Option CronNumber) {values : List ℕ} :
    parseCronItem min max names (Text.toAsciiLowercase (CronPart.text ⟨.any, step⟩)) = some values ↔
      CronPart.Reads min max names ⟨.any, step⟩ values := by
  have reads : ∀ {all : List ℕ}, CronSpan.any.Reads min max names all ↔ all = cronRange min max := by
    intro all
    constructor
    · rintro ⟨first, last, bounds, -, -, -, rfl⟩
      obtain ⟨rfl, rfl⟩ := Prod.mk.inj (Option.some.inj bounds)
      rfl
    · rintro rfl
      exact ⟨min, max, rfl, le_rfl, ordered, le_rfl, rfl⟩
  rw [parseCronItem, Text.trim_dark fun c member => isWhiteSpace_of_isPartChar (CronPart.isPartChar _ c member),
    CronPart.lower, CronPart.Reads]
  simp only [reads, exists_eq_left]
  cases step with
  | none =>
    simp only [StepInRange, stepped]
    change some (cronRange min max) = some values ↔ _
    simp [eq_comm]
  | some number =>
    simp only [stepped]
    refine (number.parse_positive fun step => some (everyNth step (cronRange min max))).trans ?_
    rw [Option.some.injEq, eq_comm]

/-- A part is read as its values, and refused if it is not in range. -/
theorem parseCronItem_iff (lower : LowerNames names) (ordered : min ≤ max) (small : max < 2 ^ 32)
    (part : CronPart) {values : List ℕ} :
    parseCronItem min max names (Text.toAsciiLowercase part.text) = some values ↔
      part.Reads min max names values := by
  by_cases written : part.span = .any
  · obtain ⟨span, step⟩ := part
    obtain rfl : span = .any := written
    exact parseCronItem_any ordered step
  obtain ⟨-, -, -, fresh⟩ := CronSpan.written written
  rw [parseCronItem_written written, part.lower, CronPart.Reads]
  cases same : part.step with
  | some number =>
    simp only [parseCronPart_stepped fresh, CronSpan.parse lower small written]
  | none =>
    simp only [parseCronPart_plain fresh, CronSpan.parse lower small written, StepInRange, stepped]
    simp

theorem CronPart.reads_inRange {part : CronPart} :
    (∃ values, part.Reads min max names values) ↔ part.InRange min max names := by
  constructor
  · rintro ⟨values, step, all, ⟨first, last, bounds, low, ordered, high, -⟩, -⟩
    exact ⟨⟨⟨first, last, bounds, low, ordered, high⟩, fun number given => (step number given).1⟩,
      fun number given => (step number given).2⟩
  · rintro ⟨⟨⟨first, last, bounds, low, ordered, high⟩, positive⟩, small⟩
    exact ⟨_, fun number given => ⟨positive number given, small number given⟩, _,
      ⟨first, last, bounds, low, ordered, high, rfl⟩, rfl⟩

theorem CronPart.Reads.mem_iff {part : CronPart} {values : List ℕ} {number : ℕ}
    (reads : part.Reads min max names values) : number ∈ values ↔ part.Covers min max names number := by
  obtain ⟨-, all, ⟨first, last, bounds, -, -, -, rfl⟩, rfl⟩ := reads
  have unique : ∀ first' last', part.span.bounds min max names = some (first', last') →
      first' = first ∧ last' = last := by
    intro first' last' bounds'
    exact Prod.mk.inj (Option.some.inj (bounds'.symm.trans bounds))
  have covers : part.Covers min max names number ↔
      first ≤ number ∧ number ≤ last ∧ ∀ step ∈ part.step, step.value ∣ number - first := by
    constructor
    · rintro ⟨first', last', bounds', inside⟩
      obtain ⟨rfl, rfl⟩ := unique first' last' bounds'
      exact inside
    · intro inside
      exact ⟨first, last, bounds, inside⟩
  rw [covers]
  cases same : part.step with
  | none => simp [stepped, mem_cronRange]
  | some step => simp [stepped, mem_everyNth]

/-- The numbers of a part in range are within the field. -/
theorem CronPart.Covers.within {part : CronPart} {number : ℕ} (covers : part.Covers min max names number)
    (inRange : part.InRange min max names) : min ≤ number ∧ number ≤ max := by
  obtain ⟨first, last, bounds, low, high, -⟩ := covers
  obtain ⟨⟨⟨first', last', bounds', low', -, high'⟩, -⟩, -⟩ := inRange
  obtain ⟨rfl, rfl⟩ := Prod.mk.inj (Option.some.inj (bounds'.symm.trans bounds))
  exact ⟨by omega, by omega⟩

end Reading

section Fields

variable {min max : ℕ} {names : List (String × ℕ)}

theorem mapM_isSome {α β : Type} {f : α → Option β} {inputs : List α} :
    (∃ outputs, inputs.mapM f = some outputs) ↔ ∀ input ∈ inputs, ∃ output, f input = some output := by
  refine ⟨fun ⟨_, found⟩ => mapM_mem found, fun all => ?_⟩
  induction inputs with
  | nil => exact ⟨[], rfl⟩
  | cons input rest ih =>
    obtain ⟨output, first⟩ := all input (by simp)
    obtain ⟨outputs, others⟩ := ih fun input member => all input (by simp [member])
    exact ⟨output :: outputs, by rw [List.mapM_cons, first, others]; rfl⟩

theorem mem_mapM {α β : Type} {f : α → Option β} {inputs : List α} {outputs : List β}
    (found : inputs.mapM f = some outputs) {output : β} :
    output ∈ outputs ↔ ∃ input ∈ inputs, f input = some output := by
  induction inputs generalizing outputs with
  | nil =>
    obtain rfl : [] = outputs := Option.some.inj found
    simp
  | cons input rest ih =>
    rw [List.mapM_cons] at found
    obtain ⟨first, head, found⟩ := Option.bind_eq_some_iff.mp found
    obtain ⟨others, tail, same⟩ := Option.bind_eq_some_iff.mp found
    obtain rfl : first :: others = outputs := Option.some.inj same
    simp [ih tail, head, eq_comm]

theorem CronField.items (field : CronField) :
    (Text.toAsciiLowercase field.text).splitOn ',' =
      field.parts.map fun part => Text.toAsciiLowercase part.text := by
  have folded : Text.toAsciiLowercase field.text =
      [','].intercalate (field.parts.map fun part => Text.toAsciiLowercase part.text) := by
    rw [CronField.text, toAsciiLowercase_intercalate, List.map_map]
    rfl
  rw [folded, List.splitOn_intercalate]
  · intro item member comma
    obtain ⟨part, -, rfl⟩ := List.mem_map.mp member
    exact absurd (part.isPartChar ',' comma) (by decide)
  · rw [Ne, List.map_eq_nil_iff]
    exact field.nonempty

theorem parseCronField_parts {field : CronField} (word : Text.IsWord field.text) :
    parseCronField field.text min max names =
      (field.parts.mapM fun part => parseCronItem min max names (Text.toAsciiLowercase part.text)).map
        fun parts => sortDedup parts.flatten := by
  rw [parseCronField, word.trim, field.items, List.mapM_map]
  rfl

variable (lower : LowerNames names) (ordered : min ≤ max) (small : max < 2 ^ 32) {field : CronField}
  (word : Text.IsWord field.text)
include lower ordered small word

theorem parseCronField_isSome : (∃ values, parseCronField field.text min max names = some values) ↔
    ∀ part ∈ field.parts, part.InRange min max names := by
  rw [parseCronField_parts word]
  simp only [Option.map_eq_some_iff]
  constructor
  · rintro ⟨-, parts, found, -⟩ part member
    obtain ⟨values, item⟩ := mapM_mem found part member
    exact CronPart.reads_inRange.mp ⟨values, (parseCronItem_iff lower ordered small part).mp item⟩
  · intro inRange
    obtain ⟨parts, found⟩ := mapM_isSome.mpr fun part member => by
      obtain ⟨values, reads⟩ := CronPart.reads_inRange.mpr (inRange part member)
      exact ⟨values, (parseCronItem_iff lower ordered small part).mpr reads⟩
    exact ⟨_, parts, found, rfl⟩

/-- The values of a field are those of its parts. -/
theorem mem_parseCronField {values : List ℕ} (found : parseCronField field.text min max names = some values)
    {number : ℕ} : number ∈ values ↔ field.Covers min max names number := by
  rw [parseCronField_parts word] at found
  obtain ⟨parts, listed, rfl⟩ := Option.map_eq_some_iff.mp found
  rw [mem_sortDedup, List.mem_flatten]
  constructor
  · rintro ⟨values, member, inside⟩
    obtain ⟨part, known, item⟩ := (mem_mapM listed).mp member
    exact ⟨part, known, ((parseCronItem_iff lower ordered small part).mp item).mem_iff.mp inside⟩
  · rintro ⟨part, known, covers⟩
    obtain ⟨values, item⟩ := mapM_mem listed part known
    exact ⟨values, (mem_mapM listed).mpr ⟨part, known, item⟩,
      ((parseCronItem_iff lower ordered small part).mp item).mem_iff.mpr covers⟩

omit lower ordered small word

theorem CronField.Covers.within {field : CronField} {number : ℕ} (covers : field.Covers min max names number)
    (inRange : (∀ part ∈ field.parts, part.InRange min max names)) : min ≤ number ∧ number ≤ max := by
  obtain ⟨part, member, covers⟩ := covers
  exact covers.within (inRange part member)

end Fields

section Expressions

theorem lowerNames_nil : LowerNames [] := by
  intro entry member
  cases member

/-- The weekdays after Sunday has got its other number. -/
def foldWeekday (values : List ℕ) : List ℕ := sortDedup (values.map fun value => if value = 7 then 0 else value)

/-- The fields one by one, in any order. -/
theorem parseCrontabExpr_eq_some {fields : CronFields} {expr : List Char} (written : fields.Writes expr)
    {parsed : CrontabExpr} :
    parseCrontabExpr expr = some parsed ↔ ∃ minute hour dayOfMonth month dayOfWeek,
      parseCronField fields.minute.text 0 59 [] = some minute ∧
      parseCronField fields.hour.text 0 23 [] = some hour ∧
      parseCronField fields.dayOfMonth.text 1 31 [] = some dayOfMonth ∧
      parseCronField fields.month.text 1 12 monthNames = some month ∧
      parseCronField fields.dayOfWeek.text 0 7 dayNames = some dayOfWeek ∧
      parsed = ⟨minute, hour, dayOfMonth, coversFullRange dayOfMonth 1 31, month, foldWeekday dayOfWeek,
        coversFullRange (foldWeekday dayOfWeek) 0 6⟩ := by
  rw [parseCrontabExpr, written]
  constructor
  · intro found
    obtain ⟨dayOfMonth, readDay, found⟩ := Option.bind_eq_some_iff.mp found
    obtain ⟨dayOfWeek, readWeekday, found⟩ := Option.bind_eq_some_iff.mp found
    obtain ⟨minute, readMinute, found⟩ := Option.bind_eq_some_iff.mp found
    obtain ⟨hour, readHour, found⟩ := Option.bind_eq_some_iff.mp found
    obtain ⟨month, readMonth, found⟩ := Option.bind_eq_some_iff.mp found
    exact ⟨minute, hour, dayOfMonth, month, dayOfWeek, readMinute, readHour, readDay, readMonth, readWeekday,
      (Option.some.inj found).symm⟩
  · rintro ⟨minute, hour, dayOfMonth, month, dayOfWeek, readMinute, readHour, readDay, readMonth, readWeekday,
      rfl⟩
    simp only [readMinute, readHour, readDay, readMonth, readWeekday, Option.bind_eq_bind, Option.bind_some]
    rfl

theorem parseCronField_sorted {field : List Char} {min max : ℕ} {names : List (String × ℕ)} {values : List ℕ}
    (found : parseCronField field min max names = some values) : ∃ all, values = sortDedup all := by
  obtain ⟨parts, -, rfl⟩ := Option.map_eq_some_iff.mp found
  exact ⟨parts.flatten, rfl⟩

theorem mem_foldWeekday {values : List ℕ} {weekday : ℕ} :
    weekday ∈ foldWeekday values ↔ ∃ number ∈ values, weekday = if number = 7 then 0 else number := by
  rw [foldWeekday, mem_sortDedup, List.mem_map]
  simp only [eq_comm]

/-- A field covers its full range if its numbers are all the numbers of it. -/
theorem coversFullRange_of_mem {values : List ℕ} {covers : ℕ → Prop} {min max : ℕ}
    (sorted : ∃ all, values = sortDedup all) (mem : ∀ number, number ∈ values ↔ covers number)
    (within : ∀ number, covers number → min ≤ number ∧ number ≤ max) :
    coversFullRange values min max = true ↔ ∀ number, min ≤ number → number ≤ max → covers number := by
  obtain ⟨all, rfl⟩ := sorted
  simp only [mem_sortDedup] at mem
  simp only [coversFullRange_iff, mem]
  constructor
  · intro same number low high
    exact (same number).mpr ⟨low, high⟩
  · intro full number
    exact ⟨within number, fun inside => full number inside.1 inside.2⟩

variable {fields : CronFields} {expr : List Char}

theorem CronFields.Writes.words (written : fields.Writes expr) :
    ∀ text ∈ [fields.minute.text, fields.hour.text, fields.dayOfMonth.text, fields.month.text,
      fields.dayOfWeek.text], Text.IsWord text := by
  intro text member
  rw [← written] at member
  exact Text.isWord_of_mem_splitWhitespace member

/-- The test of the two day fields. -/
theorem takesDay_iff {days weekdays : List ℕ} {anyDay anyWeekday : Bool} {day weekday : ℕ}
    (dayMem : ∀ day, day ∈ days ↔ fields.dayOfMonth.Covers 1 31 [] day)
    (weekdayMem : ∀ weekday, weekday ∈ weekdays ↔ fields.TakesWeekday weekday)
    (every : (anyDay || anyWeekday) = true ↔ fields.EveryDay) :
    (if anyDay || anyWeekday then decide (day ∈ days) && decide (weekday ∈ weekdays)
      else decide (day ∈ days) || decide (weekday ∈ weekdays)) = true ↔ fields.TakesDay day weekday := by
  rw [CronFields.TakesDay, ← every]
  split_ifs with both
  · simp [dayMem, weekdayMem, both]
  · simp [dayMem, weekdayMem, both]

theorem parseCrontabExpr_isSome (written : fields.Writes expr) :
    (parseCrontabExpr expr).isSome ↔ fields.AllParts CronPart.InRange := by
  have words := written.words
  simp only [List.forall_mem_cons] at words
  obtain ⟨minuteWord, hourWord, dayWord, monthWord, weekdayWord, -⟩ := words
  rw [CronFields.AllParts,
    ← parseCronField_isSome lowerNames_nil (show 0 ≤ 59 by decide) (by decide) minuteWord,
    ← parseCronField_isSome lowerNames_nil (show 0 ≤ 23 by decide) (by decide) hourWord,
    ← parseCronField_isSome lowerNames_nil (show 1 ≤ 31 by decide) (by decide) dayWord,
    ← parseCronField_isSome lowerNames_months (show 1 ≤ 12 by decide) (by decide) monthWord,
    ← parseCronField_isSome lowerNames_days (show 0 ≤ 7 by decide) (by decide) weekdayWord,
    Option.isSome_iff_exists]
  simp only [parseCrontabExpr_eq_some written]
  constructor
  · rintro ⟨-, minute, hour, day, month, weekday, minuteRead, hourRead, dayRead, monthRead, weekdayRead, -⟩
    exact ⟨⟨minute, minuteRead⟩, ⟨hour, hourRead⟩, ⟨day, dayRead⟩, ⟨month, monthRead⟩, ⟨weekday, weekdayRead⟩⟩
  · rintro ⟨⟨minute, minuteRead⟩, ⟨hour, hourRead⟩, ⟨day, dayRead⟩, ⟨month, monthRead⟩, ⟨weekday, weekdayRead⟩⟩
    exact ⟨_, minute, hour, day, month, weekday, minuteRead, hourRead, dayRead, monthRead, weekdayRead, rfl⟩

theorem matches_iff (written : fields.Writes expr) {parsed : CrontabExpr}
    (found : parseCrontabExpr expr = some parsed) (minute hour day month weekday : ℕ) :
    parsed.matches minute hour day month weekday = true ↔ fields.Takes minute hour day month weekday := by
  have inRange := (parseCrontabExpr_isSome written).mp (Option.isSome_of_eq_some found)
  obtain ⟨-, -, dayRange, -, weekdayRange⟩ := inRange
  have words := written.words
  simp only [List.forall_mem_cons] at words
  obtain ⟨minuteWord, hourWord, dayWord, monthWord, weekdayWord, -⟩ := words
  obtain ⟨minutes, hours, days, months, weekdays, minuteRead, hourRead, dayRead, monthRead, weekdayRead,
    rfl⟩ := (parseCrontabExpr_eq_some written).mp found
  have dayMem : ∀ day, day ∈ days ↔ fields.dayOfMonth.Covers 1 31 [] day := fun day =>
    mem_parseCronField lowerNames_nil (by decide) (by decide) dayWord dayRead
  have weekdayMem : ∀ weekday, weekday ∈ foldWeekday weekdays ↔ fields.TakesWeekday weekday := by
    intro weekday
    simp only [mem_foldWeekday, CronFields.TakesWeekday,
      mem_parseCronField lowerNames_days (by decide) (by decide) weekdayWord weekdayRead]
  have weekdayWithin : ∀ weekday, fields.TakesWeekday weekday → 0 ≤ weekday ∧ weekday ≤ 6 := by
    rintro weekday ⟨number, covers, rfl⟩
    obtain ⟨-, high⟩ := covers.within weekdayRange
    split_ifs
    · omega
    · omega
  have folded : ∃ all, foldWeekday weekdays = sortDedup all := ⟨_, rfl⟩
  have every : (coversFullRange days 1 31 || coversFullRange (foldWeekday weekdays) 0 6) = true ↔
      fields.EveryDay := by
    rw [Bool.or_eq_true, CronFields.EveryDay,
      coversFullRange_of_mem (parseCronField_sorted dayRead) dayMem fun day covers => covers.within dayRange,
      coversFullRange_of_mem folded weekdayMem weekdayWithin]
    simp only [Nat.zero_le, true_implies]
  simp only [CrontabExpr.matches, Bool.and_eq_true, takesDay_iff dayMem weekdayMem every, decide_eq_true_eq,
    CronFields.Takes, and_assoc,
    mem_parseCronField lowerNames_nil (by decide) (by decide) minuteWord minuteRead,
    mem_parseCronField lowerNames_nil (by decide) (by decide) hourWord hourRead,
    mem_parseCronField lowerNames_months (by decide) (by decide) monthWord monthRead]

/-- An expression is read exactly if its parts are in range, and takes the times in the sets of its
fields. -/
theorem parseCrontabExpr_meaning (fields : CronFields) (expr : List Char) (written : fields.Writes expr) :
    ((parseCrontabExpr expr).isSome ↔ fields.AllParts CronPart.InRange) ∧
      ∀ parsed, parseCrontabExpr expr = some parsed → ∀ minute hour day month weekday,
        parsed.matches minute hour day month weekday = true ↔ fields.Takes minute hour day month weekday :=
  ⟨parseCrontabExpr_isSome written, fun _ found => matches_iff written found⟩

section Samples

def CronField.single (span : CronSpan) (step : Option CronNumber) : CronField := ⟨[⟨span, step⟩], by simp⟩

/-- Minutes that are a number apart, of every hour. -/
def everySoManyMinutes (step : CronNumber) : CronFields where
  minute := .single .any (some step)
  hour := .single .any none
  dayOfMonth := .single .any none
  month := .single .any none
  dayOfWeek := .single .any none

theorem everySoManyMinutes_proper {step : CronNumber} (positive : 0 < step.value) :
    (everySoManyMinutes step).AllParts CronPart.Proper := by
  have star : ∀ {min max : ℕ} {names : List (String × ℕ)} {step : Option CronNumber}, min ≤ max →
      (∀ number ∈ step, 0 < number.value) →
      ∀ part ∈ (CronField.single .any step).parts, part.Proper min max names := by
    intro min max names step ordered positive part member
    obtain rfl := List.mem_singleton.mp member
    exact ⟨⟨min, max, rfl, le_rfl, ordered, le_rfl⟩, positive⟩
  exact ⟨star (by decide) (by simpa using positive), star (by decide) (by simp), star (by decide) (by simp),
    star (by decide) (by simp), star (by decide) (by simp)⟩

def five : CronNumber := ⟨['5'], by decide, by simp⟩

theorem parseCrontabExpr_meaning_five :
    (everySoManyMinutes five).Writes "*/5 * * * *".toList ∧
      ((parseCrontabExpr "*/5 * * * *".toList).isSome ↔
        (everySoManyMinutes five).AllParts CronPart.InRange) ∧
      ∀ parsed, parseCrontabExpr "*/5 * * * *".toList = some parsed → ∀ minute hour day month weekday,
        parsed.matches minute hour day month weekday = true ↔
          (everySoManyMinutes five).Takes minute hour day month weekday :=
  ⟨by decide, parseCrontabExpr_meaning (everySoManyMinutes five) "*/5 * * * *".toList (by decide)⟩

/-- The least step that is too wide. -/
def wideStep : CronNumber := ⟨"4294967296".toList, by decide, by simp⟩

/-- A proper expression with a step of 2 ^ 32 is refused. -/
theorem wideStep_refused :
    (everySoManyMinutes wideStep).Writes "*/4294967296 * * * *".toList ∧
      (everySoManyMinutes wideStep).AllParts CronPart.Proper ∧
      parseCrontabExpr "*/4294967296 * * * *".toList = none :=
  ⟨by decide, everySoManyMinutes_proper (by decide), by decide⟩

end Samples

end Expressions

end CueShell
