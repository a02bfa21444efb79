import CueShell.ToMathlib.Text
import Mathlib.Data.Bool.AllAny
import Mathlib.Data.List.Infix
import Mathlib.Data.List.TakeWhile

/-! # Words of a text

A word is a nonempty text without white space. A text of words joined by single blanks splits back
into these words, and the operations that strip, split and trim undo the corresponding joins.
-/

namespace Text

/-- Nonempty and without white space. -/
def IsWord (word : List Char) : Prop := word ≠ [] ∧ ∀ c ∈ word, isWhiteSpace c = false

instance (word : List Char) : Decidable (IsWord word) :=
  @instDecidableAnd _ _ _ (List.decidableBAll (fun c => isWhiteSpace c = false) word)

theorem isWord_of_all {word : List Char} (nonempty : word ≠ []) {p : Char → Bool}
    (dark : ∀ c, p c = true → isWhiteSpace c = false) (all : ∀ c ∈ word, p c = true) : IsWord word :=
  ⟨nonempty, fun c member => dark c (all c member)⟩

theorem IsWord.append {front back : List Char} (left : IsWord front) (right : IsWord back) :
    IsWord (front ++ back) := by
  refine ⟨by simp [left.1], fun c member => ?_⟩
  rcases List.mem_append.mp member with member | member
  · exact left.2 c member
  · exact right.2 c member

theorem isWhiteSpace_of_isDigit {c : Char} (digit : c.isDigit = true) : isWhiteSpace c = false := by
  have bounds := Char.isDigit_iff_toNat.mp digit
  have nine : '9'.toNat = 57 := rfl
  have zero : '0'.toNat = 48 := rfl
  simp [isWhiteSpace]
  omega

theorem isUpper_of_isDigit {c : Char} (digit : c.isDigit = true) : c.isUpper = false := by
  have bounds := Char.isDigit_iff_toNat.mp digit
  have nine : '9'.toNat = 57 := rfl
  refine decide_eq_false fun upper => ?_
  have above : 65 ≤ c.toNat := UInt32.le_iff_toNat_le.mp upper.1
  omega

theorem toLower_of_not_upper {c : Char} (notUpper : c.isUpper = false) : c.toLower = c := by
  have below : ¬ (c.val ≥ 'A'.val ∧ c.val ≤ 'Z'.val) := of_decide_eq_false notUpper
  exact dif_neg below

theorem toAsciiLowercase_of_forall {text : List Char} (lower : ∀ c ∈ text, c.isUpper = false) :
    toAsciiLowercase text = text := by
  have same := List.map_congr_left fun c member => toLower_of_not_upper (lower c member)
  exact same.trans (List.map_id' text)

theorem upper_cases {p : Char → Prop} (all : ∀ code < 26, p (Char.ofNat (65 + code))) {c : Char}
    (upper : c.isUpper = true) : p c := by
  have bounds : 65 ≤ c.toNat ∧ c.toNat ≤ 90 := by
    have between : c.val ≥ 'A'.val ∧ c.val ≤ 'Z'.val := of_decide_eq_true upper
    exact ⟨UInt32.le_iff_toNat_le.mp between.1, UInt32.le_iff_toNat_le.mp between.2⟩
  have found := all (c.toNat - 65) (by omega)
  rwa [Nat.add_sub_cancel' bounds.1, Char.ofNat_toNat] at found

theorem isWhiteSpace_toLower (c : Char) (dark : isWhiteSpace c = false) :
    isWhiteSpace c.toLower = false := by
  by_cases upper : c.isUpper = true
  · exact upper_cases (p := fun c => isWhiteSpace c.toLower = false) (by decide) upper
  · rwa [toLower_of_not_upper (by simpa using upper)]

section Trim

variable {text : List Char}

theorem dropWhile_dark (dark : ∀ c ∈ text, isWhiteSpace c = false) :
    text.dropWhile isWhiteSpace = text := by
  cases text with
  | nil => rfl
  | cons c rest => simp [dark c (by simp)]

theorem trimStart_dark (dark : ∀ c ∈ text, isWhiteSpace c = false) : trimStart text = text :=
  dropWhile_dark dark

theorem trimEnd_dark (dark : ∀ c ∈ text, isWhiteSpace c = false) : trimEnd text = text := by
  rw [trimEnd, dropWhile_dark fun c member => dark c (List.mem_reverse.mp member),
    List.reverse_reverse]

/-- There is nothing to trim from a word. -/
theorem trim_dark (dark : ∀ c ∈ text, isWhiteSpace c = false) : trim text = text := by
  rw [trim, trimStart_dark dark, trimEnd_dark dark]

theorem dropWhile_of_head {p : Char → Bool} (first : ∀ c ∈ text.head?, p c = false) :
    text.dropWhile p = text := by
  cases text with
  | nil => rfl
  | cons c rest => simp [first c rfl]

/-- Taking characters off the end of a text stops at one that stays. -/
theorem dropEnd_append {p : Char → Bool} {front : List Char} (last : ∀ c ∈ front.getLast?, p c = false)
    (back : List Char) : ((front ++ back).reverse.dropWhile p).reverse =
      front ++ (back.reverse.dropWhile p).reverse := by
  have stays : front.reverse.dropWhile p = front.reverse := by
    refine dropWhile_of_head fun c first => last c ?_
    rwa [List.head?_reverse] at first
  rw [List.reverse_append, List.dropWhile_append, stays]
  split
  · rename_i none
    rw [List.isEmpty_iff.mp none, List.reverse_reverse, List.reverse_nil, List.append_nil]
  · rw [List.reverse_append, List.reverse_reverse]

/-- There is nothing to trim from a text that neither starts nor ends with white space. -/
theorem trim_of_ends (first : ∀ c ∈ text.head?, isWhiteSpace c = false)
    (last : ∀ c ∈ text.getLast?, isWhiteSpace c = false) : Text.trim text = text := by
  rw [Text.trim, trimStart, dropWhile_of_head first, trimEnd, dropWhile_of_head (by simpa using last),
    List.reverse_reverse]

theorem IsWord.trim (word : IsWord text) : Text.trim text = text := trim_dark word.2

theorem trimStart_append {front : List Char} (word : IsWord front) (back : List Char) :
    trimStart (front ++ back) = front ++ back := by
  cases front with
  | nil => exact absurd rfl word.1
  | cons c rest => simp [trimStart, word.2 c (by simp)]

theorem trimEnd_append (front : List Char) {back : List Char} (word : IsWord back) :
    trimEnd (front ++ back) = front ++ back := by
  have turned : IsWord back.reverse :=
    ⟨by simp [word.1], fun c member => word.2 c (List.mem_reverse.mp member)⟩
  have kept := trimStart_append turned front.reverse
  rw [trimEnd, List.reverse_append, ← trimStart, kept, List.reverse_append, List.reverse_reverse,
    List.reverse_reverse]

end Trim

section Split

theorem splitWhitespace_word {word : List Char} (clean : IsWord word) :
    splitWhitespace word = [word] := by
  rw [splitWhitespace, List.splitOnP_eq_singleton clean.2]
  simp [clean.1]

theorem splitWhitespace_cons {word : List Char} (clean : IsWord word) (rest : List Char) :
    splitWhitespace (word ++ ' ' :: rest) = word :: splitWhitespace rest := by
  rw [splitWhitespace, List.splitOnP_append_cons_of_forall_mem clean.2 ' ' rfl]
  simp [splitWhitespace, clean.1]

/-- Words joined by blanks split back into the words. -/
theorem splitWhitespace_intercalate {words : List (List Char)}
    (clean : ∀ word ∈ words, IsWord word) : splitWhitespace ([' '].intercalate words) = words := by
  induction words with
  | nil => rfl
  | cons word rest ih =>
    have first := clean word (by simp)
    cases rest with
    | nil => simpa using splitWhitespace_word first
    | cons next more =>
      have split := ih fun word member => clean word (by simp [member])
      rw [List.intercalate_cons_cons, List.append_assoc, List.singleton_append,
        splitWhitespace_cons first, split]

theorem forall_mem_intercalate {p : Char → Prop} {separator : Char} {words : List (List Char)}
    (between : p separator) (inside : ∀ word ∈ words, ∀ c ∈ word, p c) :
    ∀ c ∈ [separator].intercalate words, p c := by
  induction words with
  | nil => simp
  | cons word rest ih =>
    have first := inside word (by simp)
    have others := ih fun word member => inside word (by simp [member])
    cases rest with
    | nil => simpa using first
    | cons next more =>
      intro c member
      rw [List.intercalate_cons_cons, List.append_assoc, List.mem_append, List.mem_append,
        List.mem_singleton] at member
      rcases member with member | rfl | member
      · exact first c member
      · exact between
      · exact others c member

theorem mem_intercalate_of_mem {separator c : Char} {word : List Char} {words : List (List Char)}
    (member : word ∈ words) (inside : c ∈ word) : c ∈ [separator].intercalate words := by
  induction words with
  | nil => exact absurd member (by simp)
  | cons first rest ih =>
    cases rest with
    | nil =>
      obtain rfl := List.mem_singleton.mp member
      simpa using inside
    | cons next more =>
      rw [List.intercalate_cons_cons, List.append_assoc, List.mem_append, List.mem_append]
      rcases List.mem_cons.mp member with rfl | member
      · exact .inl inside
      · exact .inr (.inr (ih member))

/-- Joined texts start with the first of them, and go on with the separator or end. -/
theorem intercalate_cons_shape (separator : Char) (first : List Char) (rest : List (List Char)) :
    ∃ back, [separator].intercalate (first :: rest) = first ++ back ∧
      ∀ c ∈ back.head?, c = separator := by
  cases rest with
  | nil => exact ⟨[], by simp⟩
  | cons next more =>
    refine ⟨separator :: [separator].intercalate (next :: more), ?_, by simp [eq_comm]⟩
    rw [List.intercalate_cons_cons, List.append_assoc, List.singleton_append]

theorem trim_intercalate {words : List (List Char)} (clean : ∀ word ∈ words, IsWord word) :
    trim ([' '].intercalate words) = [' '].intercalate words := by
  have front : trimStart ([' '].intercalate words) = [' '].intercalate words := by
    cases words with
    | nil => rfl
    | cons word rest =>
      have first := clean word (by simp)
      cases rest with
      | nil => simpa using trimStart_dark first.2
      | cons next more =>
        rw [List.intercalate_cons_cons, List.append_assoc]
        exact trimStart_append first _
  -- The text ends with its last word.
  have back : words ≠ [] → ∃ before word, IsWord word ∧ [' '].intercalate words = before ++ word := by
    intro nonempty
    clear front
    induction words with
    | nil => exact absurd rfl nonempty
    | cons word rest ih =>
      cases rest with
      | nil => exact ⟨[], word, clean word (by simp), by simp⟩
      | cons next more =>
        obtain ⟨before, last, isWord, same⟩ :=
          ih (fun word member => clean word (by simp [member])) (by simp)
        exact ⟨word ++ [' '] ++ before, last, isWord, by
          simp only [List.intercalate_cons_cons, same, List.append_assoc]⟩
  rw [trim, front]
  by_cases none : words = []
  · subst none
    rfl
  · obtain ⟨before, last, isWord, same⟩ := back none
    rw [same, trimEnd_append before isWord]

/-- The pieces of a split hold no separator. -/
theorem not_mem_splitOnP {p : Char → Bool} {text word : List Char} (member : word ∈ text.splitOnP p) :
    ∀ c ∈ word, p c = false := by
  induction text generalizing word with
  | nil => simp_all
  | cons c rest ih =>
    rw [List.splitOnP_cons_eq_if_modifyHead] at member
    split at member
    next =>
      rcases List.mem_cons.mp member with rfl | member
      · simp
      · exact ih member
    next other =>
      obtain ⟨head, tail, shape⟩ := List.exists_cons_of_ne_nil (List.splitOnP_ne_nil p rest)
      rw [shape, List.modifyHead_cons] at member
      rcases List.mem_cons.mp member with rfl | member
      · intro d inside
        rcases List.mem_cons.mp inside with rfl | inside
        · simpa using other
        · exact ih (by rw [shape]; simp) d inside
      · exact ih (by rw [shape]; simp [member])

/-- What a split at white space leaves are words. -/
theorem isWord_of_mem_splitWhitespace {text word : List Char}
    (member : word ∈ splitWhitespace text) : IsWord word := by
  obtain ⟨piece, full⟩ := List.mem_filter.mp member
  exact ⟨by simpa using full, not_mem_splitOnP piece⟩

theorem splitOnce_append {separator : Char} {front : List Char} (fresh : separator ∉ front)
    (back : List Char) : splitOnce separator (front ++ separator :: back) = some (front, back) := by
  induction front with
  | nil => simp [splitOnce]
  | cons c rest ih =>
    obtain ⟨other, fresh⟩ := not_or.mp (List.mem_cons.not.mp fresh)
    simp [splitOnce, Ne.symm other, ih fresh]

theorem splitOnce_eq_some {separator : Char} {text front back : List Char}
    (found : splitOnce separator text = some (front, back)) : text = front ++ separator :: back := by
  induction text generalizing front with
  | nil => exact absurd found (by simp [splitOnce])
  | cons c rest ih =>
    rw [splitOnce] at found
    split at found
    next same =>
      cases found
      simp [same]
    next =>
      obtain ⟨⟨before, after⟩, inner, same⟩ := Option.map_eq_some_iff.mp found
      cases same
      rw [ih inner, List.cons_append]

theorem splitOnce_fresh {separator : Char} {text front back : List Char}
    (found : splitOnce separator text = some (front, back)) : separator ∉ front := by
  induction text generalizing front with
  | nil => cases found
  | cons c rest ih =>
    rw [splitOnce] at found
    split at found
    next =>
      cases found
      exact List.not_mem_nil
    next other =>
      obtain ⟨⟨before, after⟩, inner, same⟩ := Option.map_eq_some_iff.mp found
      cases same
      exact List.mem_cons.not.mpr (not_or.mpr ⟨Ne.symm other, ih inner⟩)

theorem splitOnce_eq_none {separator : Char} {text : List Char} (fresh : separator ∉ text) :
    splitOnce separator text = none := by
  induction text with
  | nil => rfl
  | cons c rest ih =>
    obtain ⟨other, fresh⟩ := not_or.mp (List.mem_cons.not.mp fresh)
    simp [splitOnce, Ne.symm other, ih fresh]

theorem rsplitOnce_append {separator : Char} (front : List Char) {back : List Char}
    (fresh : separator ∉ back) : rsplitOnce separator (front ++ separator :: back) = some (front, back) := by
  have turned : (front ++ separator :: back).reverse = back.reverse ++ separator :: front.reverse := by simp
  rw [rsplitOnce, turned, splitOnce_append (by simpa using fresh)]
  simp

theorem rsplitOnce_eq_some {separator : Char} {text front back : List Char}
    (found : rsplitOnce separator text = some (front, back)) : text = front ++ separator :: back := by
  obtain ⟨⟨last, first⟩, turned, same⟩ := Option.map_eq_some_iff.mp found
  obtain ⟨rfl, rfl⟩ := Prod.mk.inj same
  rw [← List.reverse_reverse text, splitOnce_eq_some turned]
  simp

theorem rsplitOnce_eq_none {separator : Char} {text : List Char} (fresh : separator ∉ text) :
    rsplitOnce separator text = none := by
  rw [rsplitOnce, splitOnce_eq_none (by simpa using fresh)]
  rfl

end Split

section Suffix

variable {front back : List Char}

theorem stripSuffix_append : stripSuffix back (front ++ back) = some front := by
  simp [stripSuffix]

theorem stripSuffix_eq_none {text : List Char} {c d : Char} (last : text.getLast? = some c)
    (other : d ≠ c) : stripSuffix (back ++ [d]) text = none := by
  have differs : ¬ back ++ [d] <:+ text := by
    rintro ⟨before, rfl⟩
    simp at last
    exact other last
  simp [stripSuffix, differs]

end Suffix

section Numerals

theorem parseDigits_of_lt {bound : ℕ} {text : List Char} (nonempty : text ≠ [])
    (digits : ∀ c ∈ text, c.isDigit = true) (small : numeral text < bound) :
    parseDigits bound text = some (numeral text) := by
  rw [parseDigits, if_pos ⟨nonempty, by simpa using digits, small⟩]

theorem parseDigits_eq_some {bound value : ℕ} {text : List Char}
    (found : parseDigits bound text = some value) :
    text ≠ [] ∧ (∀ c ∈ text, c.isDigit = true) ∧ value = numeral text ∧ value < bound := by
  rw [parseDigits, Option.ite_none_right_eq_some] at found
  obtain ⟨⟨nonempty, digits, small⟩, same⟩ := found
  obtain rfl := Option.some.inj same
  exact ⟨nonempty, by simpa using digits, rfl, small⟩

end Numerals

section Bytes

theorem dropBytes_append (front rest : List Char) :
    dropBytes (byteLength front) (front ++ rest) = rest := by
  induction front with
  | nil => cases rest <;> simp [dropBytes]
  | cons c front ih =>
    have size := c.utf8Size_pos
    rw [List.cons_append, dropBytes, byteLength_cons, if_neg (by omega), Nat.add_sub_cancel_left,
      ih]

theorem takeBytes_append (front rest : List Char) :
    takeBytes (byteLength front) (front ++ rest) = front := by
  induction front with
  | nil => cases rest <;> simp [takeBytes]
  | cons c front ih =>
    have size := c.utf8Size_pos
    rw [List.cons_append, takeBytes, byteLength_cons, if_neg (by omega), Nat.add_sub_cancel_left,
      ih]

theorem slice_append (lead mid trail : List Char) :
    slice (lead ++ (mid ++ trail)) (byteLength lead)
      (byteLength lead + byteLength mid) = mid := by
  rw [slice, dropBytes_append, Nat.add_sub_cancel_left, takeBytes_append]

theorem trim_eq_nil {text : List Char} : trim text = [] ↔ ∀ c ∈ text, isWhiteSpace c = true := by
  rw [trim, trimEnd, trimStart, List.reverse_eq_nil_iff, List.dropWhile_eq_nil_iff]
  constructor
  · intro all c member
    rw [← List.takeWhile_append_dropWhile (p := isWhiteSpace) (l := text)] at member
    rcases List.mem_append.mp member with front | back
    · exact List.mem_takeWhile_imp front
    · exact all c (List.mem_reverse.mpr back)
  · intro all c member
    exact all c ((List.dropWhile_sublist _).subset (List.mem_reverse.mp member))

end Bytes

end Text
