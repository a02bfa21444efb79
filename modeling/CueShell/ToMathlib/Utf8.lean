import CueShell.ToMathlib.Words

/-! # UTF-8 bytes of a text

The bytes of a text, each read as the character with its code. A character below 128 is its own byte,
and every byte of another character is at least 128, so a scan for such characters finds the same ones
in the bytes as in the text. Positions between two characters are the boundaries of the text.
-/

namespace Text

/-- The bytes of a character, each read as the character with its code. -/
def utf8Char (c : Char) : List Char := (String.utf8EncodeChar c).map Char.ofUInt8

/-- The bytes of a text. -/
def utf8 (text : List Char) : List Char := text.flatMap utf8Char

/-- The text with the given bytes, if there is one. -/
def fromUtf8 (bytes : List Char) : Option (List Char) :=
  ((bytes.map Char.toUInt8).toByteArray.utf8Decode?).map Array.toList

/-- `str::is_char_boundary`: the ends of the bytes, and every place before a first byte. -/
def isCharBoundary (bytes : List Char) (index : ℕ) : Bool :=
  index == 0 ||
    match bytes[index]? with
    | none => index == bytes.length
    | some byte => byte.toNat < 0x80 || 0xC0 ≤ byte.toNat

/-- A place between two characters, or an end of the text. -/
def IsBoundary (text : List Char) (index : ℕ) : Prop :=
  ∃ front back, text = front ++ back ∧ byteLength front = index

/-- A class of characters below 128. -/
def AsciiOnly (p : Char → Bool) : Prop := ∀ c, p c = true → c.toNat < 128

section Char

variable {c byte : Char}

theorem toNat_ofUInt8 (byte : UInt8) : (Char.ofUInt8 byte).toNat = byte.toNat := by
  exact UInt8.toNat_toUInt32 byte

theorem toUInt8_ofUInt8 (byte : UInt8) : (Char.ofUInt8 byte).toUInt8 = byte := by
  exact UInt8.toUInt8_toUInt32 byte

theorem length_utf8Char (c : Char) : (utf8Char c).length = c.utf8Size := by
  simp [utf8Char]

theorem utf8Char_of_lt (small : c.toNat < 128) : utf8Char c = [c] := by
  have code : c.val.toNat ≤ 0x7f := Nat.le_of_lt_succ small
  rw [utf8Char, String.utf8EncodeChar, if_pos code, List.map_singleton]
  congr 1
  apply Char.ext
  apply UInt32.toNat_inj.mp
  have same := toNat_ofUInt8 (UInt8.ofNat c.val.toNat)
  rw [UInt8.toNat_ofNat_of_lt' (by simp [UInt8.size]; omega)] at same
  exact same

/-- Every byte of a character from 128 on is at least 128. -/
theorem le_of_mem_utf8Char (big : 128 ≤ c.toNat) (member : byte ∈ utf8Char c) : 128 ≤ byte.toNat := by
  obtain ⟨value, inside, rfl⟩ := List.mem_map.mp member
  rw [toNat_ofUInt8]
  have code : ¬ c.val.toNat ≤ 0x7f := by
    have : c.val.toNat = c.toNat := rfl
    omega
  rw [String.utf8EncodeChar, if_neg code] at inside
  split_ifs at inside <;> simp only [List.mem_cons, List.not_mem_nil, or_false] at inside
  all_goals
    rcases inside with rfl | rfl | rfl | rfl <;>
    · rw [UInt8.toNat_ofNat_of_lt' (by simp [UInt8.size]; omega)]
      omega

/-- The first byte of a character is not a continuation byte. -/
theorem head_utf8Char (c : Char) : ∃ first more, utf8Char c = first :: more ∧
    (first.toNat < 0x80 ∨ 0xC0 ≤ first.toNat) := by
  have code : c.val.toNat = c.toNat := rfl
  rw [utf8Char, String.utf8EncodeChar]
  split_ifs with one two three
  all_goals
    refine ⟨_, _, rfl, ?_⟩
    rw [toNat_ofUInt8, UInt8.toNat_ofNat_of_lt' (by simp [UInt8.size]; omega)]
    omega

theorem utf8Char_ne_nil (c : Char) : utf8Char c ≠ [] := by
  simp [utf8Char]

/-- The bytes behind the first one of a character are continuation bytes. -/
theorem mem_tail_utf8Char (member : byte ∈ (utf8Char c).tail) : 0x80 ≤ byte.toNat ∧ byte.toNat < 0xC0 := by
  have code : c.val.toNat = c.toNat := rfl
  rw [utf8Char, String.utf8EncodeChar] at member
  split_ifs at member <;>
    simp only [List.map_cons, List.map_nil, List.tail_cons, List.mem_cons, List.not_mem_nil, or_false] at member
  all_goals
    rcases member with rfl | rfl | rfl <;>
    · rw [toNat_ofUInt8, UInt8.toNat_ofNat_of_lt' (by simp [UInt8.size]; omega)]
      omega

/-- Every byte of a character belongs to a class below 128 as the character does. -/
theorem AsciiOnly.of_mem {p : Char → Bool} (ascii : AsciiOnly p) (member : byte ∈ utf8Char c) :
    p byte = p c := by
  rcases Nat.lt_or_ge c.toNat 128 with small | big
  · rw [utf8Char_of_lt small, List.mem_singleton] at member
    rw [member]
  · have high := le_of_mem_utf8Char big member
    have none : ∀ d : Char, 128 ≤ d.toNat → p d = false := by
      intro d far
      rw [← Bool.not_eq_true]
      intro inside
      exact absurd (ascii d inside) (by omega)
    rw [none byte high, none c big]

end Char

section Bytes

variable {text front back : List Char} {c : Char} {p : Char → Bool}

@[simp] theorem utf8_nil : utf8 [] = [] := rfl

theorem utf8_cons (c : Char) (text : List Char) : utf8 (c :: text) = utf8Char c ++ utf8 text := by
  simp [utf8]

@[simp] theorem utf8_append (front back : List Char) : utf8 (front ++ back) = utf8 front ++ utf8 back := by
  simp [utf8]

theorem utf8_cons_of_lt (small : c.toNat < 128) (text : List Char) : utf8 (c :: text) = c :: utf8 text := by
  rw [utf8_cons, utf8Char_of_lt small, List.singleton_append]

@[simp] theorem length_utf8 (text : List Char) : (utf8 text).length = byteLength text := by
  induction text with
  | nil => rfl
  | cons c text ih => rw [utf8_cons, List.length_append, length_utf8Char, ih, byteLength_cons]

theorem drop_utf8 (front back : List Char) : (utf8 (front ++ back)).drop (byteLength front) = utf8 back := by
  rw [utf8_append, ← length_utf8, List.drop_left]

/-- A text of characters below 128 is its own encoding. -/
theorem utf8_of_forall (small : ∀ c ∈ text, c.toNat < 128) : utf8 text = text := by
  induction text with
  | nil => rfl
  | cons c text ih =>
    rw [utf8_cons_of_lt (small c (by simp)), ih fun d inside => small d (by simp [inside])]

theorem byteLength_of_forall (small : ∀ c ∈ text, c.toNat < 128) : byteLength text = text.length := by
  rw [← length_utf8, utf8_of_forall small]

/-- A scan for characters below 128 takes the same ones from the bytes. -/
theorem AsciiOnly.takeWhile_utf8 (ascii : AsciiOnly p) (text : List Char) :
    (utf8 text).takeWhile p = text.takeWhile p := by
  induction text with
  | nil => rfl
  | cons c text ih =>
    cases within : p c with
    | true =>
      rw [utf8_cons_of_lt (ascii c within), List.takeWhile_cons_of_pos within,
        List.takeWhile_cons_of_pos within, ih]
    | false =>
      obtain ⟨first, more, bytes, -⟩ := head_utf8Char c
      have outside : p first = false := (ascii.of_mem (bytes ▸ List.mem_cons_self)).trans within
      rw [utf8_cons, bytes, List.cons_append, List.takeWhile_cons_of_neg (by simp [outside]),
        List.takeWhile_cons_of_neg (by simp [within])]

theorem AsciiOnly.byteLength_takeWhile (ascii : AsciiOnly p) (text : List Char) :
    byteLength (text.takeWhile p) = (text.takeWhile p).length :=
  byteLength_of_forall fun c inside => ascii c (List.mem_takeWhile_imp inside)

/-- The first byte belongs to a class below 128 as the first character does. -/
theorem AsciiOnly.head_utf8 (ascii : AsciiOnly p) (text : List Char) :
    (utf8 text).head?.map p = text.head?.map p := by
  cases text with
  | nil => rfl
  | cons c text =>
    obtain ⟨first, more, bytes, -⟩ := head_utf8Char c
    rw [utf8_cons, bytes]
    exact congrArg some (ascii.of_mem (bytes ▸ List.mem_cons_self))

/-- The last byte belongs to a class below 128 as the last character does. -/
theorem AsciiOnly.getLast_utf8 (ascii : AsciiOnly p) (text : List Char) :
    (utf8 text).getLast?.map p = text.getLast?.map p := by
  induction text using List.reverseRecOn with
  | nil => rfl
  | append_singleton text c =>
    have last := List.getLast?_eq_some_getLast (utf8Char_ne_nil c)
    rw [utf8_append, utf8_cons, utf8_nil, List.append_nil, List.getLast?_append, last,
      List.getLast?_append, List.getLast?_singleton]
    exact congrArg some (ascii.of_mem (List.getLast_mem _))

/-- The bytes start with a text below 128 exactly if the text does. -/
theorem isPrefixOf_utf8 {word : List Char} (small : ∀ c ∈ word, c.toNat < 128) (text : List Char) :
    word.isPrefixOf (utf8 text) = word.isPrefixOf text := by
  induction word generalizing text with
  | nil => simp
  | cons c word ih =>
    cases text with
    | nil => rfl
    | cons d text =>
      have ascii : AsciiOnly (c == ·) := by
        intro e same
        obtain rfl : c = e := by simpa using same
        exact small c (by simp)
      by_cases same : c = d
      · subst same
        rw [utf8_cons_of_lt (small c (by simp)), List.isPrefixOf, List.isPrefixOf,
          ih fun e inside => small e (by simp [inside])]
      · obtain ⟨first, more, bytes, -⟩ := head_utf8Char d
        have other : (c == first) = (c == d) := ascii.of_mem (bytes ▸ List.mem_cons_self)
        rw [utf8_cons, bytes, List.cons_append, List.isPrefixOf, List.isPrefixOf, other,
          beq_eq_false_iff_ne.mpr same, Bool.false_and, Bool.false_and]

theorem fromUtf8_utf8 (text : List Char) : fromUtf8 (utf8 text) = some text := by
  have bytes : (utf8 text).map Char.toUInt8 = text.flatMap String.utf8EncodeChar := by
    rw [utf8, List.map_flatMap]
    congr 1
    funext c
    rw [utf8Char, List.map_map]
    exact List.map_id'' (fun byte => toUInt8_ofUInt8 byte) _
  rw [fromUtf8, bytes]
  exact congrArg (Option.map Array.toList) List.utf8Decode?_utf8Encode

end Bytes

section Boundaries

variable {text front back : List Char} {index : ℕ}

theorem isBoundary_zero : IsBoundary text 0 := ⟨[], text, rfl, rfl⟩

theorem isBoundary_end : IsBoundary text (byteLength text) := ⟨text, [], by simp, rfl⟩

theorem isBoundary_append : IsBoundary (front ++ back) (byteLength front) := ⟨front, back, rfl, rfl⟩

theorem IsBoundary.le (boundary : IsBoundary text index) : index ≤ byteLength text := by
  obtain ⟨front, back, rfl, rfl⟩ := boundary
  rw [byteLength_append]
  exact Nat.le_add_right ..

/-- The check of the standard library accepts every place between two characters. -/
theorem IsBoundary.isCharBoundary (boundary : IsBoundary text index) :
    isCharBoundary (utf8 text) index = true := by
  obtain ⟨front, back, rfl, rfl⟩ := boundary
  rw [Text.isCharBoundary]
  cases back with
  | nil => simp
  | cons c back =>
    obtain ⟨first, more, bytes, starts⟩ := head_utf8Char c
    have here : (utf8 (front ++ c :: back))[byteLength front]? = some first := by
      rw [← List.head?_drop, drop_utf8, utf8_cons, bytes]
      rfl
    rw [here]
    simpa using .inr starts

theorem IsBoundary.cons {c : Char} (boundary : IsBoundary text index) :
    IsBoundary (c :: text) (c.utf8Size + index) := by
  obtain ⟨front, back, rfl, rfl⟩ := boundary
  exact ⟨c :: front, back, rfl, byteLength_cons c front⟩

/-- The check of the standard library accepts no other places. -/
theorem isBoundary_of_isCharBoundary (accepted : Text.isCharBoundary (utf8 text) index = true) :
    IsBoundary text index := by
  induction text generalizing index with
  | nil =>
    obtain rfl : index = 0 := by simpa [Text.isCharBoundary] using accepted
    exact isBoundary_zero
  | cons c text ih =>
    rcases Nat.eq_zero_or_pos index with rfl | positive
    · exact isBoundary_zero
    rw [Text.isCharBoundary, utf8_cons] at accepted
    have late : (index == 0) = false := beq_eq_false_iff_ne.mpr (Nat.ne_of_gt positive)
    rw [late, Bool.false_or] at accepted
    rcases Nat.lt_or_ge index c.utf8Size with inside | behind
    · -- A place inside of the first character is that of a continuation byte.
      have within : index < (utf8Char c).length := by rw [length_utf8Char]; exact inside
      rw [List.getElem?_append_left within, List.getElem?_eq_getElem within] at accepted
      obtain ⟨place, rfl⟩ : ∃ place, index = place + 1 := ⟨index - 1, by omega⟩
      have member : (utf8Char c)[place + 1] ∈ (utf8Char c).tail := by
        rw [← List.getElem_tail (by rw [List.length_tail]; omega)]
        exact List.getElem_mem _
      have middle := mem_tail_utf8Char member
      simp only [Bool.or_eq_true, decide_eq_true_eq] at accepted
      omega
    · obtain ⟨rest, rfl⟩ := Nat.exists_eq_add_of_le behind
      refine IsBoundary.cons (ih ?_)
      rw [← length_utf8Char, List.getElem?_append_right (Nat.le_add_right ..), Nat.add_sub_cancel_left] at accepted
      rw [Text.isCharBoundary, Bool.or_eq_true]
      refine .inr ?_
      cases byte : (utf8 text)[rest]? with
      | none => simpa [byte, length_utf8Char] using accepted
      | some byte' => simpa [byte] using accepted

theorem isCharBoundary_iff : Text.isCharBoundary (utf8 text) index = true ↔ IsBoundary text index :=
  ⟨isBoundary_of_isCharBoundary, IsBoundary.isCharBoundary⟩

@[simp] theorem dropBytes_zero (text : List Char) : dropBytes 0 text = text := by
  cases text <;> rfl

/-- What starts at or after a byte position starts at the next boundary, which is at most three bytes
away, and every text that ends with something shorter ends with a part of it. -/
theorem dropBytes_spec {start : ℕ} (within : start ≤ byteLength text) : ∃ front,
    text = front ++ dropBytes start text ∧ start ≤ byteLength front ∧ byteLength front ≤ start + 3 ∧
      ∀ before after, text = before ++ after → start ≤ byteLength before → after <:+ dropBytes start text := by
  induction text generalizing start with
  | nil =>
    obtain rfl : start = 0 := Nat.le_zero.mp within
    refine ⟨[], rfl, Nat.le_refl _, Nat.zero_le _, fun before after parts _ => ?_⟩
    exact ⟨before, parts.symm⟩
  | cons c text ih =>
    rcases Nat.eq_zero_or_pos start with rfl | positive
    · refine ⟨[], rfl, Nat.le_refl _, Nat.zero_le _, fun before after parts _ => ?_⟩
      exact ⟨before, parts.symm⟩
    have drops : dropBytes start (c :: text) = dropBytes (start - c.utf8Size) text := by
      rw [dropBytes, if_neg (Nat.ne_of_gt positive)]
    have shrinks {before after : List Char} (parts : c :: text = before ++ after)
        (far : start ≤ byteLength before) : ∃ rest, text = rest ++ after ∧
          start ≤ c.utf8Size + byteLength rest := by
      cases before with
      | nil => exact absurd (Nat.lt_of_lt_of_le positive far) (Nat.lt_irrefl 0)
      | cons d rest =>
        obtain ⟨rfl, rfl⟩ := List.cons.inj parts
        exact ⟨rest, rfl, byteLength_cons c rest ▸ far⟩
    rw [drops]
    rcases Nat.lt_or_ge c.utf8Size start with beyond | inside
    · rw [byteLength_cons] at within
      have inner : start - c.utf8Size ≤ byteLength text := by omega
      obtain ⟨front, parts, low, high, longest⟩ := ih inner
      refine ⟨c :: front, ?_, ?_, ?_, fun before after whole far => ?_⟩
      · rw [List.cons_append, ← parts]
      · rw [byteLength_cons]
        omega
      · rw [byteLength_cons]
        omega
      · obtain ⟨rest, shape, size⟩ := shrinks whole far
        exact longest rest after shape (by omega)
    · have few : c.utf8Size ≤ 4 := c.utf8Size_le_four
      rw [Nat.sub_eq_zero_of_le inside, dropBytes_zero]
      refine ⟨[c], rfl, ?_, ?_, fun before after whole far => ?_⟩
      · rw [byteLength_cons, byteLength_nil]
        omega
      · rw [byteLength_cons, byteLength_nil]
        omega
      · obtain ⟨rest, shape, -⟩ := shrinks whole far
        exact ⟨rest, shape.symm⟩

end Boundaries

end Text
