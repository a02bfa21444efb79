import CueShell.ToMathlib.Words

/-! # Line ends

A text with every line feed replaced by a carriage return and a line feed. The replacement is a
homomorphism, and it commutes with the scanning operations that stop at a line end anyway.
-/

namespace Text

/-- Every line feed becomes a carriage return and a line feed. -/
def toCrlf (text : List Char) : List Char :=
  text.flatMap fun c => if c = '\n' then ['\r', '\n'] else [c]

/-- The scan stops at both characters of a line end. -/
def StopsAtLineEnd (p : Char → Bool) : Prop := p '\n' = false ∧ p '\r' = false

variable {text front back : List Char} {c : Char} {p : Char → Bool}

@[simp] theorem toCrlf_nil : toCrlf [] = [] := rfl

@[simp] theorem toCrlf_lineFeed (text : List Char) : toCrlf ('\n' :: text) = '\r' :: '\n' :: toCrlf text := by
  simp [toCrlf]

theorem toCrlf_cons (plain : c ≠ '\n') (text : List Char) : toCrlf (c :: text) = c :: toCrlf text := by
  simp [toCrlf, plain]

@[simp] theorem toCrlf_append (front back : List Char) : toCrlf (front ++ back) = toCrlf front ++ toCrlf back := by
  simp [toCrlf]

theorem toCrlf_of_plain (plain : '\n' ∉ text) : toCrlf text = text := by
  induction text with
  | nil => rfl
  | cons c text ih =>
    simp only [List.mem_cons, not_or] at plain
    rw [toCrlf_cons (fun is => plain.1 is.symm), ih plain.2]

theorem toCrlf_eq_nil : toCrlf text = [] ↔ text = [] := by
  cases text with
  | nil => simp
  | cons c text =>
    by_cases feed : c = '\n'
    · simp [feed]
    · simp [toCrlf_cons feed]

theorem mem_toCrlf_feed : '\r' ∉ text → ('\r' ∈ toCrlf text ↔ '\n' ∈ text) := by
  intro fresh
  induction text with
  | nil => simp
  | cons c text ih =>
    simp only [List.mem_cons, not_or] at fresh
    by_cases feed : c = '\n'
    · simp [feed]
    · have other : '\n' ≠ c := fun is => feed is.symm
      simp [toCrlf_cons feed, ih fresh.2, fresh.1, other]

theorem takeWhile_toCrlf (stops : StopsAtLineEnd p) (text : List Char) :
    (toCrlf text).takeWhile p = text.takeWhile p := by
  induction text with
  | nil => rfl
  | cons c text ih =>
    by_cases feed : c = '\n'
    · simp [feed, stops.1, stops.2]
    · rw [toCrlf_cons feed, List.takeWhile_cons, List.takeWhile_cons, ih]

theorem dropWhile_toCrlf (stops : StopsAtLineEnd p) (text : List Char) :
    (toCrlf text).dropWhile p = toCrlf (text.dropWhile p) := by
  induction text with
  | nil => rfl
  | cons c text ih =>
    by_cases feed : c = '\n'
    · simp [feed, stops.1, stops.2]
    · rw [toCrlf_cons feed, List.dropWhile_cons, List.dropWhile_cons, ih]
      split
      · rfl
      · rw [toCrlf_cons feed]

theorem head?_toCrlf (text : List Char) :
    (toCrlf text).head? = text.head?.map fun c => if c = '\n' then '\r' else c := by
  cases text with
  | nil => rfl
  | cons c text =>
    by_cases feed : c = '\n'
    · simp [feed]
    · simp [toCrlf_cons feed, feed]

theorem head?_toCrlf_eq_some (feed : c ≠ '\n') (back : c ≠ '\r') :
    (toCrlf text).head? = some c ↔ text.head? = some c := by
  rw [head?_toCrlf]
  cases text with
  | nil => simp
  | cons d text =>
    by_cases isFeed : d = '\n'
    · subst isFeed
      simp [Ne.symm feed, Ne.symm back]
    · simp [isFeed]

/-- A test that does not tell the characters of a line end apart. -/
theorem all_head?_toCrlf (same : p '\n' = p '\r') (text : List Char) :
    (toCrlf text).head?.all p = text.head?.all p := by
  rw [head?_toCrlf]
  cases text with
  | nil => rfl
  | cons c text =>
    by_cases feed : c = '\n'
    · simp [feed, same]
    · simp [feed]

/-- A front part without line ends is a front part of both texts. -/
theorem isPrefix_toCrlf (feed : '\n' ∉ front) (back : '\r' ∉ front) :
    front <+: toCrlf text ↔ front <+: text := by
  induction front generalizing text with
  | nil => simp
  | cons c front ih =>
    simp only [List.mem_cons, not_or] at feed back
    cases text with
    | nil => simp
    | cons d text =>
      by_cases isFeed : d = '\n'
      · subst isFeed
        simp [List.cons_prefix_cons, Ne.symm feed.1, Ne.symm back.1]
      · simp [toCrlf_cons isFeed, List.cons_prefix_cons, ih feed.2 back.2]

theorem drop_toCrlf (plain : '\n' ∉ front) : (toCrlf (front ++ back)).drop front.length = toCrlf back := by
  rw [toCrlf_append, toCrlf_of_plain plain, List.drop_left]

theorem isWhiteSpace_toCrlf :
    (∀ c ∈ toCrlf text, isWhiteSpace c = true) ↔ ∀ c ∈ text, isWhiteSpace c = true := by
  induction text with
  | nil => simp
  | cons c text ih =>
    have feed : isWhiteSpace '\n' = true := rfl
    have back : isWhiteSpace '\r' = true := rfl
    by_cases isFeed : c = '\n'
    · simp [isFeed, ih, feed, back]
    · simp [toCrlf_cons isFeed, ih]

/-- A byte range between two cuts of the text goes to the range between the same cuts. -/
theorem slice_toCrlf {first second : List Char} (cut : first <+: text) (cut' : second <+: text) :
    slice (toCrlf text) (byteLength (toCrlf first)) (byteLength (toCrlf second)) =
      toCrlf (slice text (byteLength first) (byteLength second)) := by
  have empty (text : List Char) (start stop : ℕ) (order : stop ≤ start) : slice text start stop = [] := by
    rw [slice, Nat.sub_eq_zero_of_le order]
    cases dropBytes start text <;> simp [takeBytes]
  obtain ⟨rest, rfl⟩ := cut'
  rcases List.prefix_or_prefix_of_prefix cut (List.prefix_append second rest) with early | late
  · obtain ⟨between, rfl⟩ := early
    have both : slice (first ++ (between ++ rest)) (byteLength first)
        (byteLength first + byteLength between) = between := slice_append first between rest
    have crlf := slice_append (toCrlf first) (toCrlf between) (toCrlf rest)
    simp only [toCrlf_append, byteLength_append, List.append_assoc] at crlf ⊢
    rw [crlf, both]
  · obtain ⟨between, rfl⟩ := late
    rw [empty _ _ _ (by simp), empty _ _ _ (by simp)]
    rfl

end Text
