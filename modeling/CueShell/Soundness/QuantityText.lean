import CueShell.Model.Resource
import CueShell.Proofs.Lexemes
import CueShell.ToMathlib.Words

/-! # The text of a resource quantity

What a quantity prints is read back as that quantity, and a number with a unit is read as their exact
product or refused.
-/

namespace CueShell

open Text

variable {number : List Char} {unit : String} {multiplier : ℕ}

/-- Digits and underscores, with at least one digit. -/
structure NumberText (number : List Char) : Prop where
  chars : ∀ c ∈ number, c.isDigit = true ∨ c = '_'
  digit : ∃ c ∈ number, c.isDigit = true

/-- The number that the digits of a text write. -/
def numberValue (number : List Char) : ℕ := numeral (number.filter (· ≠ '_'))

/-- The accepted units with their factors; a number may come without one. -/
def UnitText (unit : String) (multiplier : ℕ) : Prop :=
  (unit = "" ∧ multiplier = 1) ∨ unitMultiplier unit = some multiplier

/-- A number without a unit is a count. -/
def ResourceQuantity.ofUnit (unit : String) (amount : ℕ) : ResourceQuantity :=
  if unit = "" then .count amount else .bytes amount

def ResourceQuantity.amount : ResourceQuantity → ℕ
  | .count number => number
  | .bytes number => number

section Units

/-- A unit is a word that does not start like a number. -/
structure UnitWord (unit : List Char) : Prop where
  dark : ∀ c ∈ unit, isWhiteSpace c = false
  head : ∀ c ∈ unit.head?, (c.isDigit || c == '_') = false

instance (unit : List Char) : Decidable (UnitWord unit) :=
  decidable_of_iff ((unit.all fun c => !isWhiteSpace c) = true ∧
      (unit.head?.all fun c => !(c.isDigit || c == '_')) = true) <| by
    constructor
    · rintro ⟨dark, head⟩
      refine ⟨by simpa using dark, fun c first => ?_⟩
      rw [Option.mem_def.mp first] at head
      simpa using head
    · rintro ⟨dark, head⟩
      refine ⟨by simpa using dark, ?_⟩
      cases first : unit.head? with
      | none => rfl
      | some c => simpa using head c first

theorem unitWord_of_if {names : List String} {factor : ℕ} {rest : Option ℕ}
    (words : (names.all fun name => decide (name ≠ "" ∧ UnitWord name.toList)) = true) (positive : 0 < factor)
    (others : rest = some multiplier → unit ≠ "" ∧ UnitWord unit.toList ∧ 0 < multiplier)
    (found : (if unit ∈ names then some factor else rest) = some multiplier) :
    unit ≠ "" ∧ UnitWord unit.toList ∧ 0 < multiplier := by
  split_ifs at found with member
  · obtain rfl := Option.some.inj found
    obtain ⟨nonempty, word⟩ := of_decide_eq_true (List.all_eq_true.mp words unit member)
    exact ⟨nonempty, word, positive⟩
  · exact others found

theorem unitWord_of_unitMultiplier (found : unitMultiplier unit = some multiplier) :
    unit ≠ "" ∧ UnitWord unit.toList ∧ 0 < multiplier := by
  revert found
  rw [unitMultiplier]
  repeat refine unitWord_of_if (by decide) (by decide) ?_
  intro none
  cases none

theorem UnitText.word (accepted : UnitText unit multiplier) : UnitWord unit.toList ∧ 0 < multiplier := by
  rcases accepted with ⟨rfl, rfl⟩ | found
  · exact ⟨by decide, Nat.one_pos⟩
  · exact (unitWord_of_unitMultiplier found).2

end Units

section Numbers

theorem NumberText.digits (text : NumberText number) :
    number.filter (· ≠ '_') ≠ [] ∧ ∀ c ∈ number.filter (· ≠ '_'), c.isDigit = true := by
  obtain ⟨c, member, digit⟩ := text.digit
  have other : c ≠ '_' := by
    rintro rfl
    exact absurd digit (by decide)
  refine ⟨List.ne_nil_of_mem (List.mem_filter.mpr ⟨member, by simpa using other⟩), fun c member => ?_⟩
  obtain ⟨inside, real⟩ := List.mem_filter.mp member
  exact (text.chars c inside).resolve_right (by simpa using real)

theorem NumberText.dark (text : NumberText number) : ∀ c ∈ number, isWhiteSpace c = false := by
  intro c member
  rcases text.chars c member with digit | rfl
  · exact isWhiteSpace_of_isDigit digit
  · decide

theorem numberText_toDigits (amount : ℕ) : NumberText (Nat.toDigits 10 amount) where
  chars := fun c member => .inl (isDigit_toDigits amount c member)
  digit := by
    obtain ⟨c, member⟩ := List.exists_mem_of_ne_nil _ (@Nat.toDigits_ne_nil amount 10)
    exact ⟨c, member, isDigit_toDigits amount c member⟩

theorem numberValue_toDigits (amount : ℕ) : numberValue (Nat.toDigits 10 amount) = amount := by
  have plain : (Nat.toDigits 10 amount).filter (· ≠ '_') = Nat.toDigits 10 amount := by
    refine List.filter_eq_self.mpr fun c member => ?_
    have digit := isDigit_toDigits amount c member
    refine decide_eq_true ?_
    rintro rfl
    exact absurd digit (by decide)
  rw [numberValue, plain, numeral_toDigits]

end Numbers

section Reading

/-- What a number with a suffix stands for. -/
def ResourceQuantity.ofParts (input : String) (number : List Char) (suffix : String) :
    Except ParseQuantityError ResourceQuantity :=
  match parseDigits (2 ^ 64) (number.filter (· ≠ '_')) with
  | none => .error ⟨input, .invalidNumber⟩
  | some value =>
      if suffix = "" then .ok (.count value)
      else
        match unitMultiplier suffix with
        | none => .error ⟨input, .invalidSuffix suffix⟩
        | some multiplier =>
            if value * multiplier ≤ u64Max then .ok (.bytes (value * multiplier))
            else .error ⟨input, .overflow⟩

/-- The number and the unit are told apart, and nothing is cut off. -/
theorem fromStr_parts (text : NumberText number) (word : UnitWord unit.toList) :
    ResourceQuantity.fromStr (String.ofList number ++ unit) =
      ResourceQuantity.ofParts (String.ofList number ++ unit) number unit := by
  have nonempty : number ≠ [] := by
    obtain ⟨c, member, -⟩ := text.digit
    exact List.ne_nil_of_mem member
  have inside : ∀ c ∈ number, (c.isDigit || c == '_') = true := by
    intro c member
    rcases text.chars c member with digit | rfl
    · rw [digit, Bool.true_or]
    · rfl
  have whole : trim (number ++ unit.toList) = number ++ unit.toList := by
    refine trim_dark fun c member => ?_
    exact (List.mem_append.mp member).elim (text.dark c) (word.dark c)
  have stops : unit.toList.takeWhile (fun c => c.isDigit || c == '_') = [] ∧
      unit.toList.dropWhile (fun c => c.isDigit || c == '_') = unit.toList := by
    have head := word.head
    cases shape : unit.toList with
    | nil => exact ⟨rfl, rfl⟩
    | cons c rest =>
      have other := head c (by rw [shape]; rfl)
      rw [List.takeWhile_cons, List.dropWhile_cons, other]
      exact ⟨rfl, rfl⟩
  have taken : (number ++ unit.toList).takeWhile (fun c => c.isDigit || c == '_') = number := by
    rw [List.takeWhile_append_of_pos inside, stops.1, List.append_nil]
  have dropped : (number ++ unit.toList).dropWhile (fun c => c.isDigit || c == '_') = unit.toList := by
    rw [List.dropWhile_append_of_pos inside, stops.2]
  rw [ResourceQuantity.fromStr, String.toList_append, String.toList_ofList, whole, taken, dropped,
    trim_dark word.dark, String.ofList_toList, if_neg (by simp [nonempty]), if_neg nonempty]
  rfl

/-- A number with a unit is read as their product, if it has 64 bits. -/
theorem fromStr_number (text : NumberText number) (accepted : UnitText unit multiplier)
    (small : numberValue number * multiplier < 2 ^ 64) :
    ResourceQuantity.fromStr (String.ofList number ++ unit) =
      .ok (.ofUnit unit (numberValue number * multiplier)) := by
  obtain ⟨word, positive⟩ := accepted.word
  have value : numberValue number < 2 ^ 64 := (Nat.le_mul_of_pos_right _ positive).trans_lt small
  have read := parseDigits_of_lt text.digits.1 text.digits.2 value
  rw [fromStr_parts text word, ResourceQuantity.ofParts, read]
  dsimp only
  rcases accepted with ⟨rfl, rfl⟩ | found
  · rw [if_pos rfl, ResourceQuantity.ofUnit, if_pos rfl, Nat.mul_one]
    rfl
  · have named := (unitWord_of_unitMultiplier found).1
    rw [if_neg named, found, ResourceQuantity.ofUnit, if_neg named]
    exact if_pos (Nat.le_sub_one_of_lt small)

/-- A product that does not fit is refused. -/
theorem fromStr_large (text : NumberText number) (accepted : UnitText unit multiplier)
    (large : 2 ^ 64 ≤ numberValue number * multiplier) :
    ∃ error, ResourceQuantity.fromStr (String.ofList number ++ unit) = .error error := by
  obtain ⟨word, positive⟩ := accepted.word
  rw [fromStr_parts text word, ResourceQuantity.ofParts]
  cases read : parseDigits (2 ^ 64) (number.filter (· ≠ '_')) with
  | none => exact ⟨_, rfl⟩
  | some value =>
    obtain ⟨-, -, same, small⟩ := parseDigits_eq_some read
    obtain rfl : value = numberValue number := same
    dsimp only
    rcases accepted with ⟨rfl, rfl⟩ | found
    · omega
    · rw [if_neg (unitWord_of_unitMultiplier found).1, found]
      dsimp only
      rw [if_neg (by rw [u64Max]; omega)]
      exact ⟨_, rfl⟩

end Reading

section Printing

variable {amount factor : ℕ}

/-- A multiple of a unit that is printed with it is read back. -/
theorem fromStr_multiple (named : unit ≠ "") (found : unitMultiplier unit = some factor)
    (divides : amount % factor = 0) (small : amount < 2 ^ 64) :
    ResourceQuantity.fromStr (toString (amount / factor) ++ unit) = .ok (.bytes amount) := by
  have product : amount / factor * factor = amount := Nat.div_mul_cancel (Nat.dvd_of_mod_eq_zero divides)
  have digits : toString (amount / factor) = String.ofList (Nat.toDigits 10 (amount / factor)) := by
    rw [← String.toList_inj, String.toList_ofList]
    exact Nat.toList_repr
  have read := fromStr_number (numberText_toDigits (amount / factor)) (.inr found)
    (by rwa [numberValue_toDigits, product])
  rwa [numberValue_toDigits, product, ResourceQuantity.ofUnit, if_neg named, ← digits] at read

theorem fromStr_formatBytesIec (small : amount < 2 ^ 64) :
    ResourceQuantity.fromStr (formatBytesIec amount) = .ok (.bytes amount) := by
  rw [formatBytesIec]
  split_ifs with zero tib gib mib kib
  · rw [zero]
    decide
  · exact fromStr_multiple (by decide) (by decide) tib small
  · exact fromStr_multiple (by decide) (by decide) gib small
  · exact fromStr_multiple (by decide) (by decide) mib small
  · exact fromStr_multiple (by decide) (by decide) kib small
  · have plain := @fromStr_multiple "B" amount 1 (by decide) (by decide) (Nat.mod_one _) small
    rwa [Nat.div_one] at plain

theorem fromStr_display (quantity : ResourceQuantity) (small : quantity.amount < 2 ^ 64) :
    ResourceQuantity.fromStr quantity.display = .ok quantity := by
  cases quantity with
  | bytes amount => exact fromStr_formatBytesIec small
  | count amount =>
    have digits : toString amount = String.ofList (Nat.toDigits 10 amount) ++ "" := by
      rw [← String.toList_inj, String.toList_append, String.toList_ofList]
      simp [Nat.toList_repr]
    have read := @fromStr_number _ "" 1 (numberText_toDigits amount) (.inl ⟨rfl, rfl⟩)
      (by rwa [numberValue_toDigits, Nat.mul_one])
    rwa [numberValue_toDigits, Nat.mul_one, ← digits] at read

end Printing

/-- Every quantity of 64 bits is read back from its text, and every number with an accepted unit is read
as their exact product or refused. -/
theorem quantity_text (quantity : ResourceQuantity) (number : List Char) (unit : String) (multiplier : ℕ) :
    (quantity.amount < 2 ^ 64 → ResourceQuantity.fromStr quantity.display = .ok quantity) ∧
    (NumberText number → UnitText unit multiplier →
      (numberValue number * multiplier < 2 ^ 64 → ResourceQuantity.fromStr (String.ofList number ++ unit) =
        .ok (.ofUnit unit (numberValue number * multiplier))) ∧
      (2 ^ 64 ≤ numberValue number * multiplier →
        ∃ error, ResourceQuantity.fromStr (String.ofList number ++ unit) = .error error)) :=
  ⟨fromStr_display quantity, fun text accepted =>
    ⟨fromStr_number text accepted, fromStr_large text accepted⟩⟩

theorem quantity_text_kib :
    ResourceQuantity.fromStr (ResourceQuantity.bytes 10240).display = .ok (.bytes 10240) ∧
      ResourceQuantity.fromStr (String.ofList ['1', '_', '0'] ++ "KiB") =
        .ok (.ofUnit "KiB" (numberValue ['1', '_', '0'] * 1024)) := by
  have text : NumberText ['1', '_', '0'] := ⟨by simp, '1', by simp, rfl⟩
  have accepted : UnitText "KiB" 1024 := .inr (by decide)
  obtain ⟨printed, read⟩ := quantity_text (.bytes 10240) ['1', '_', '0'] "KiB" 1024
  exact ⟨printed (by decide), (read text accepted).1 (by decide)⟩

end CueShell
