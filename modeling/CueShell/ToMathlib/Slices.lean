import CueShell.ToMathlib.Utf8

/-! # Cutting a text at byte positions

The operations of a string library that take byte positions and panic (`none`) where a position is not
between two characters: slices, insertion and replacement, and the searches that yield positions.
-/

namespace Text

/-- `split_at`: the text in front of a byte position and the text behind it. -/
def cut : List Char → ℕ → Option (List Char × List Char)
  | text, 0 => some ([], text)
  | [], _ + 1 => none
  | c :: rest, index + 1 =>
      if c.utf8Size ≤ index + 1 then
        (cut rest (index + 1 - c.utf8Size)).map fun (front, back) => (c :: front, back)
      else none

/-- `&text[start..stop]`. -/
def range (text : List Char) (start stop : ℕ) : Option (List Char) := do
  let (front, _) ← cut text stop
  let (_, inside) ← cut front start
  pure inside

/-- `&text[..stop]`. -/
def upTo (text : List Char) (stop : ℕ) : Option (List Char) := (cut text stop).map Prod.fst

/-- `&text[start..]`. -/
def behind (text : List Char) (start : ℕ) : Option (List Char) := (cut text start).map Prod.snd

/-- `replace_range`, and `drain` for an empty text. -/
def replaceRange (text : List Char) (start stop : ℕ) (new : List Char) : Option (List Char) := do
  let (front, back) ← cut text stop
  let (front, _) ← cut front start
  pure (front ++ new ++ back)

/-- `insert_str`. -/
def insertAt (text : List Char) (index : ℕ) (new : List Char) : Option (List Char) :=
  (cut text index).map fun (front, back) => front ++ new ++ back

/-- `find`: the byte position of the first character of a kind. -/
def find (kind : Char → Bool) (text : List Char) : Option ℕ :=
  if text.any kind then some (byteLength (text.takeWhile (!kind ·))) else none

/-- `rfind`: the byte position of the last character of a kind. -/
def rfind (kind : Char → Bool) (text : List Char) : Option ℕ :=
  if text.any kind then some (byteLength (text.reverse.dropWhile (!kind ·)).tail) else none

/-- The subtraction of positions. -/
def checkedSub (a b : ℕ) : Option ℕ := if b ≤ a then some (a - b) else none

section Cut

variable {text front back inside new : List Char} {index start stop : ℕ}

theorem cut_append (front back : List Char) : cut (front ++ back) (byteLength front) = some (front, back) := by
  induction front with
  | nil => cases back <;> rfl
  | cons c front ih =>
    obtain ⟨size, shape⟩ : ∃ size, byteLength (c :: front) = size + 1 :=
      Nat.exists_eq_succ_of_ne_zero (by have := c.utf8Size_pos; rw [byteLength_cons]; omega)
    have fits : c.utf8Size ≤ size + 1 := by rw [← shape, byteLength_cons]; exact Nat.le_add_right ..
    rw [List.cons_append, shape, cut, if_pos fits, ← shape, byteLength_cons, Nat.add_sub_cancel_left, ih]
    rfl

/-- A text is cut exactly at its boundaries. -/
theorem cut_eq_some : cut text index = some (front, back) ↔ text = front ++ back ∧ byteLength front = index := by
  constructor
  · intro found
    induction text generalizing index front with
    | nil =>
      cases index with
      | zero =>
        obtain ⟨rfl, rfl⟩ := Prod.mk.inj (Option.some.inj found)
        exact ⟨rfl, rfl⟩
      | succ index => cases found
    | cons c rest ih =>
      cases index with
      | zero =>
        obtain ⟨rfl, rfl⟩ := Prod.mk.inj (Option.some.inj found)
        exact ⟨rfl, rfl⟩
      | succ index =>
        rw [cut] at found
        obtain ⟨fits, found⟩ := Option.ite_none_right_eq_some.mp found
        obtain ⟨⟨front, back⟩, inner, same⟩ := Option.map_eq_some_iff.mp found
        obtain ⟨rfl, rfl⟩ := Prod.mk.inj same
        obtain ⟨rfl, size⟩ := ih inner
        exact ⟨rfl, by rw [byteLength_cons]; omega⟩
  · rintro ⟨rfl, rfl⟩
    exact cut_append front back

theorem IsBoundary.cut (boundary : IsBoundary text index) :
    ∃ front back, text = front ++ back ∧ byteLength front = index ∧ Text.cut text index = some (front, back) := by
  obtain ⟨front, back, rfl, rfl⟩ := boundary
  exact ⟨front, back, rfl, rfl, cut_append front back⟩

theorem isBoundary_of_cut (found : Text.cut text index = some (front, back)) : IsBoundary text index := by
  obtain ⟨rfl, rfl⟩ := cut_eq_some.mp found
  exact isBoundary_append

/-- One byte behind a boundary is another one exactly where a character of one byte follows. -/
theorem isBoundary_succ {c : Char} :
    IsBoundary (front ++ c :: back) (byteLength front + 1) ↔ c.utf8Size = 1 := by
  constructor
  · rintro ⟨before, after, parts, size⟩
    have positive := c.utf8Size_pos
    by_contra wide
    rcases List.append_eq_append_iff.mp parts with ⟨more, rfl, rest⟩ | ⟨more, rfl, -⟩
    · cases more with
      | nil =>
        rw [List.append_nil] at size
        omega
      | cons d more =>
        obtain ⟨rfl, -⟩ := List.cons.inj rest
        rw [byteLength_append, byteLength_cons] at size
        omega
    · rw [byteLength_append] at size
      omega
  · intro narrow
    refine ⟨front ++ [c], back, by simp, ?_⟩
    rw [byteLength_append, byteLength_cons, byteLength_nil, narrow]

theorem range_append (front inside back : List Char) :
    range (front ++ inside ++ back) (byteLength front) (byteLength (front ++ inside)) = some inside := by
  rw [range, cut_append]
  change (cut (front ++ inside) (byteLength front)).bind _ = _
  rw [cut_append]
  rfl

theorem range_eq_some : range text start stop = some inside ↔
    ∃ front back, text = front ++ inside ++ back ∧ byteLength front = start ∧
      byteLength (front ++ inside) = stop := by
  constructor
  · intro found
    obtain ⟨⟨before, back⟩, last, found⟩ := Option.bind_eq_some_iff.mp found
    obtain ⟨⟨front, rest⟩, first, done⟩ := Option.bind_eq_some_iff.mp found
    obtain rfl := Option.some.inj done
    obtain ⟨rfl, rfl⟩ := cut_eq_some.mp last
    obtain ⟨rfl, rfl⟩ := cut_eq_some.mp first
    exact ⟨front, back, rfl, rfl, rfl⟩
  · rintro ⟨front, back, rfl, rfl, rfl⟩
    exact range_append front inside back

theorem upTo_append (front back : List Char) : upTo (front ++ back) (byteLength front) = some front := by
  rw [upTo, cut_append]
  rfl

theorem behind_append (front back : List Char) : behind (front ++ back) (byteLength front) = some back := by
  rw [behind, cut_append]
  rfl

theorem behind_eq_some : behind text start = some back ↔ ∃ front, text = front ++ back ∧ byteLength front = start := by
  rw [behind, Option.map_eq_some_iff]
  constructor
  · rintro ⟨⟨front, back⟩, found, rfl⟩
    exact ⟨front, cut_eq_some.mp found⟩
  · rintro ⟨front, parts⟩
    exact ⟨(front, back), cut_eq_some.mpr parts, rfl⟩

theorem replaceRange_append (front inside back new : List Char) :
    replaceRange (front ++ inside ++ back) (byteLength front) (byteLength (front ++ inside)) new =
      some (front ++ new ++ back) := by
  rw [replaceRange, cut_append]
  change (cut (front ++ inside) (byteLength front)).bind _ = _
  rw [cut_append]
  rfl

theorem insertAt_append (front back new : List Char) :
    insertAt (front ++ back) (byteLength front) new = some (front ++ new ++ back) := by
  rw [insertAt, cut_append]
  rfl

end Cut

section Search

variable {kind : Char → Bool} {text : List Char} {index : ℕ}

/-- A text with a character of a kind is split at the first one. -/
theorem split_at_first (here : text.any kind = true) : ∃ c back,
    text = text.takeWhile (!kind ·) ++ c :: back ∧ text.dropWhile (!kind ·) = c :: back ∧ kind c = true := by
  have parts : text.takeWhile (!kind ·) ++ text.dropWhile (!kind ·) = text := List.takeWhile_append_dropWhile
  cases rest : text.dropWhile (!kind ·) with
  | nil =>
    obtain ⟨c, member, same⟩ := List.any_eq_true.mp here
    have other := List.dropWhile_eq_nil_iff.mp rest c member
    rw [same] at other
    cases other
  | cons c back =>
    have first := List.head?_dropWhile_not (!kind ·) text
    rw [rest] at parts first
    exact ⟨c, back, parts.symm, rfl, by simpa using first⟩

theorem not_of_mem_takeWhile {c : Char} (member : c ∈ text.takeWhile (!kind ·)) : kind c = false := by
  simpa using List.mem_takeWhile_imp member

theorem find_eq_some (found : find kind text = some index) :
    ∃ front c back, text = front ++ c :: back ∧ byteLength front = index ∧ kind c = true ∧
      ∀ d ∈ front, kind d = false := by
  obtain ⟨here, same⟩ := Option.ite_none_right_eq_some.mp found
  obtain ⟨c, back, parts, -, first⟩ := split_at_first here
  exact ⟨_, c, back, parts, Option.some.inj same, first, fun d => not_of_mem_takeWhile⟩

theorem find_eq_none (found : find kind text = none) : ∀ c ∈ text, kind c = false := by
  rw [find, ite_eq_right_iff] at found
  intro c member
  by_contra same
  exact absurd (found (List.any_eq_true.mpr ⟨c, member, by simpa using same⟩)) (by simp)

theorem byteLength_reverse (text : List Char) : byteLength text.reverse = byteLength text := by
  rw [byteLength, List.map_reverse, List.sum_reverse, byteLength]

theorem rfind_eq_some (found : rfind kind text = some index) :
    ∃ front c back, text = front ++ c :: back ∧ byteLength front = index ∧ kind c = true ∧
      ∀ d ∈ back, kind d = false := by
  obtain ⟨here, same⟩ := Option.ite_none_right_eq_some.mp found
  have turned : text.reverse.any kind = true := by rw [List.any_reverse, here]
  obtain ⟨c, front, parts, rest, first⟩ := split_at_first turned
  rw [rest] at same
  refine ⟨front.reverse, c, (text.reverse.takeWhile (!kind ·)).reverse, ?_, ?_, first, fun d member => ?_⟩
  · refine List.reverse_injective (parts.trans ?_)
    simp
  · rw [byteLength_reverse]
    exact Option.some.inj same
  · exact not_of_mem_takeWhile (List.mem_reverse.mp member)

theorem rfind_eq_none (found : rfind kind text = none) : ∀ c ∈ text, kind c = false := by
  rw [rfind, ite_eq_right_iff] at found
  intro c member
  by_contra same
  exact absurd (found (List.any_eq_true.mpr ⟨c, member, by simpa using same⟩)) (by simp)

end Search

end Text
