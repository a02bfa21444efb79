import CueShell.Model.Scheduler.TextLimits
import CueShell.Proofs.StatementChunks

/-! # Limited texts

The text of an answer is cut to its longest end of a number of bytes, and that to its last lines. The loop that
looks for a boundary is done after four rounds, and the flag of an answer says whether its text is the whole one.
-/

namespace CueShell

open Text

variable {text tail line : List Char} {start stop rounds limit maxBytes : ℕ}

section Tails

/-- The loop stops at the next boundary. -/
theorem nextBoundary_eq (boundary : IsBoundary text stop) (ordered : start ≤ stop)
    (between : ∀ index, start ≤ index → index < stop → ¬ IsBoundary text index)
    (near : stop < start + rounds) : nextBoundary text rounds start = some stop := by
  induction rounds generalizing start with
  | zero => exact absurd near (Nat.not_lt.mpr ordered)
  | succ rounds ih =>
    rw [nextBoundary]
    rcases Nat.eq_or_lt_of_le ordered with rfl | later
    · rw [if_pos boundary.isCharBoundary]
    · rw [if_neg (isCharBoundary_iff.not.mpr (between start (Nat.le_refl _) later))]
      exact ih later (fun index after => between index (Nat.le_of_succ_le after)) (by omega)

/-- The longest end of a text within a number of bytes. -/
structure LongestEnd (maxBytes : ℕ) (text tail : List Char) : Prop where
  isEnd : tail <:+ text
  fits : byteLength tail ≤ maxBytes
  longest : ∀ other, other <:+ text → byteLength other ≤ maxBytes → other <:+ tail

/-- What starts in the last bytes of a text is found by the loop and cut off by the slice. -/
theorem dropBytes_longest (long : maxBytes < byteLength text) (enough : 4 ≤ rounds) :
    LongestEnd maxBytes text (dropBytes (byteLength text - maxBytes) text) ∧
      ∃ start, nextBoundary text rounds (byteLength text - maxBytes) = some start ∧
        behind text start = some (dropBytes (byteLength text - maxBytes) text) := by
  obtain ⟨front, parts, low, high, longest⟩ := dropBytes_spec (Nat.sub_le (byteLength text) maxBytes)
  have size : byteLength text =
      byteLength front + byteLength (dropBytes (byteLength text - maxBytes) text) := by
    rw [← byteLength_append, ← parts]
  refine ⟨⟨⟨front, parts.symm⟩, by omega, ?_⟩, byteLength front, ?_, ?_⟩
  · rintro other ⟨before, whole⟩ few
    refine longest before other whole.symm ?_
    rw [← whole, byteLength_append]
    omega
  · refine nextBoundary_eq ⟨front, _, parts, rfl⟩ low ?_ (by omega)
    rintro index far near ⟨before, after, whole, rfl⟩
    -- A boundary in front of it would leave a longer end.
    obtain ⟨more, shorter⟩ := longest before after whole far
    have split := congrArg byteLength whole
    rw [byteLength_append] at split
    rw [← shorter, byteLength_append] at size
    omega
  · exact behind_eq_some.mpr ⟨front, parts, rfl⟩

theorem byteLength_eq_zero_iff : byteLength text = 0 ↔ text = [] := by
  cases text with
  | nil => simp
  | cons c text =>
    have positive := c.utf8Size_pos
    rw [byteLength_cons]
    simp only [reduceCtorEq, iff_false]
    omega

/-- The end of a text that is kept, and whether anything is dropped. -/
theorem tailUtf8_spec (text : String) (maxBytes : ℕ) : ∃ tail, LongestEnd maxBytes text.toList tail ∧
    tailUtf8 text maxBytes = (String.ofList tail, decide (tail ≠ text.toList)) ∧
      ∀ rounds, 4 ≤ rounds → tailUtf8Checked rounds text maxBytes = some (tailUtf8 text maxBytes) := by
  rcases Nat.eq_zero_or_pos maxBytes with rfl | positive
  · refine ⟨[], ⟨List.nil_suffix, Nat.le_refl _, fun other _ few => ?_⟩, ?_, fun rounds _ => ?_⟩
    · rw [byteLength_eq_zero_iff.mp (Nat.le_zero.mp few)]
    · have same : (text ≠ "") = ([] ≠ text.toList) := by
        rw [ne_comm, ne_eq, ne_eq, ← String.toList_inj]
        rfl
      simp only [tailUtf8, if_true, same, String.ofList_nil]
    · simp [tailUtf8Checked, tailUtf8]
  · have some_ : maxBytes ≠ 0 := Nat.ne_of_gt positive
    rcases Nat.lt_or_ge maxBytes (byteLength text.toList) with long | short
    · have more : ¬ byteLength text.toList ≤ maxBytes := Nat.not_le.mpr long
      have cuts : tailUtf8 text maxBytes =
          (String.ofList (dropBytes (byteLength text.toList - maxBytes) text.toList), true) := by
        rw [tailUtf8, if_neg some_, if_neg more]
      obtain ⟨longest, -⟩ := dropBytes_longest long (Nat.le_refl 4)
      refine ⟨_, longest, ?_, fun rounds enough => ?_⟩
      · have dropped : dropBytes (byteLength text.toList - maxBytes) text.toList ≠ text.toList := by
          intro same
          exact absurd (same ▸ longest.fits) more
        rw [cuts, decide_eq_true dropped]
      · obtain ⟨start, found, rest⟩ := (dropBytes_longest long enough).2
        rw [cuts, tailUtf8Checked, if_neg some_, if_neg more, found, Option.bind_eq_bind,
          Option.bind_some, rest]
        rfl
    · refine ⟨text.toList, ⟨List.suffix_rfl, short, fun other part _ => part⟩, ?_, fun rounds _ => ?_⟩
      · simp [tailUtf8, some_, short]
      · simp [tailUtf8Checked, tailUtf8, some_, short]

end Tails

section Lines

/-- Every line but the last one ends with a line feed. -/
theorem length_textLines_le (text : List Char) : (textLines text).length ≤ text.count '\n' + 1 := by
  rw [textLines, List.length_map]
  induction text with
  | nil => exact Nat.zero_le _
  | cons c text ih =>
    by_cases feed : c = '\n'
    · rw [splitInclusive, if_pos feed, List.length_cons, feed, List.count_cons_self]
      exact Nat.succ_le_succ ih
    · rw [splitInclusive_cons feed, List.count_cons_of_ne feed]
      cases lines : splitInclusive text with
      | nil => simp
      | cons first lines =>
        rw [lines] at ih
        exact ih

theorem textLines_clean (member : line ∈ textLines text) : '\n' ∉ line := by
  obtain ⟨⟨whole, ended⟩, inside, rfl⟩ := List.mem_map.mp member
  obtain ⟨earlier, later, split⟩ := List.append_of_mem inside
  have clean := (splitInclusive_line split).1
  cases ended with
  | false => exact clean
  | true =>
    dsimp only
    rw [if_pos rfl, stripSuffix]
    split
    · exact fun feed => clean (List.mem_of_mem_take feed)
    · exact clean

theorem count_intercalate {lines : List (List Char)} (clean : ∀ line ∈ lines, '\n' ∉ line) :
    (['\n'].intercalate lines).count '\n' = lines.length - 1 := by
  induction lines with
  | nil => rfl
  | cons first lines ih =>
    have none : first.count '\n' = 0 := List.count_eq_zero.mpr (clean first (by simp))
    cases lines with
    | nil => rw [List.intercalate_singleton, none, List.length_singleton]
    | cons second lines =>
      rw [List.intercalate_cons_cons, List.count_append, List.count_append, none,
        ih fun line inside => clean line (List.mem_cons_of_mem _ inside)]
      simp only [List.count_singleton_self, List.length_cons]
      omega

/-- The last lines of a text. -/
def lastLines (limit : ℕ) (text : List Char) : List (List Char) :=
  (textLines text).drop ((textLines text).length - limit)

theorem length_lastLines (beyond : limit < (textLines text).length) :
    (lastLines limit text).length = limit := by
  rw [lastLines, List.length_drop]
  omega

theorem lastLines_zero (text : List Char) : lastLines 0 text = [] := by
  simp [lastLines]

theorem lastLines_clean : ∀ line ∈ lastLines limit text, '\n' ∉ line :=
  fun _ inside => textLines_clean (List.mem_of_mem_drop inside)

/-- The last lines of a text are as many lines again at most. -/
theorem textLines_lastLines (beyond : limit < (textLines text).length) :
    (textLines (['\n'].intercalate (lastLines limit text))).length ≤ limit := by
  rcases Nat.eq_zero_or_pos limit with rfl | positive
  · rw [lastLines_zero]
    exact Nat.le_refl 0
  · have few := length_textLines_le (['\n'].intercalate (lastLines limit text))
    rw [count_intercalate lastLines_clean, length_lastLines beyond] at few
    omega

/-- A text is more than some of its last lines. -/
theorem lastLines_ne {whole : List Char} (isEnd : text <:+ whole) (beyond : limit < (textLines text).length) :
    ['\n'].intercalate (lastLines limit text) ≠ whole := by
  intro same
  have feeds : text.count '\n' ≤ limit - 1 := by
    rw [← length_lastLines beyond, ← count_intercalate lastLines_clean, same]
    exact isEnd.sublist.count_le '\n'
  have lines := length_textLines_le text
  have none : limit = 0 := by omega
  -- No line is left of a text that is empty then.
  subst none
  rw [lastLines_zero, List.intercalate_nil] at same
  have nothing : text = [] := List.suffix_nil.mp (same ▸ isEnd)
  rw [nothing] at beyond
  exact absurd beyond (Nat.lt_irrefl 0)

end Lines

/-- The end of a text that a limit on its bytes leaves. -/
structure EndWithin (text : String) (tailBytes : Option ℕ) (tail : List Char) : Prop where
  whole : tailBytes = none → tail = text.toList
  longest : ∀ maxBytes, tailBytes = some maxBytes → LongestEnd maxBytes text.toList tail ∧
    ∀ rounds, 4 ≤ rounds → tailUtf8Checked rounds text maxBytes =
      some (String.ofList tail, decide (tail ≠ text.toList))

/-- What is shown of a text: the end that a limit on its bytes leaves, or the last lines of that. -/
structure Limited (text : String) (lineLimit tailBytes : Option ℕ) (tail : List Char)
    (result : String × Bool) : Prop extends EndWithin text tailBytes tail where
  untouched : (∀ limit, lineLimit = some limit → (textLines tail).length ≤ limit) →
    result.1.toList = tail
  last : ∀ limit, lineLimit = some limit → limit < (textLines tail).length →
    result.1.toList = ['\n'].intercalate (lastLines limit tail)
  few : ∀ limit, lineLimit = some limit → (textLines result.1.toList).length ≤ limit
  flag : result.2 = true ↔ result.1 ≠ text

section Limits

variable {text : String} {lineLimit tailBytes : Option ℕ} {tail : List Char}

theorem EndWithin.isEnd (cut : EndWithin text tailBytes tail) : tail <:+ text.toList := by
  cases tailBytes with
  | none => exact cut.whole rfl ▸ List.suffix_rfl
  | some maxBytes => exact (cut.longest maxBytes rfl).1.isEnd

/-- What is left to the limit on the lines. -/
theorem endWithin_spec (text : String) (tailBytes : Option ℕ) : ∃ tail, EndWithin text tailBytes tail ∧
    tailBytes.elim (text, false) (tailUtf8 text) = (String.ofList tail, decide (tail ≠ text.toList)) ∧
      ∀ rounds, 4 ≤ rounds → tailBytes.elim (some (text, false)) (tailUtf8Checked rounds text) =
        some (String.ofList tail, decide (tail ≠ text.toList)) := by
  cases tailBytes with
  | none =>
    refine ⟨text.toList, ⟨fun _ => rfl, nofun⟩, ?_, fun rounds _ => ?_⟩
    · simp
    · simp
  | some maxBytes =>
    obtain ⟨tail, longest, cut, checked⟩ := tailUtf8_spec text maxBytes
    have same : ∀ rounds, 4 ≤ rounds → tailUtf8Checked rounds text maxBytes =
        some (String.ofList tail, decide (tail ≠ text.toList)) :=
      fun rounds enough => (checked rounds enough).trans (congrArg some cut)
    refine ⟨tail, ⟨nofun, ?_⟩, cut, same⟩
    rintro _ ⟨⟩
    exact ⟨longest, same⟩

/-- An end with few lines is shown as it is. -/
theorem EndWithin.limited (cut : EndWithin text tailBytes tail)
    (short : ∀ limit, lineLimit = some limit → (textLines tail).length ≤ limit) :
    Limited text lineLimit tailBytes tail (String.ofList tail, decide (tail ≠ text.toList)) where
  toEndWithin := cut
  untouched _ := String.toList_ofList
  last limit asked beyond := absurd (short limit asked) (Nat.not_le.mpr beyond)
  few limit asked := by
    rw [String.toList_ofList]
    exact short limit asked
  flag := by
    have same : String.ofList tail = text ↔ tail = text.toList := by
      rw [← String.toList_inj, String.toList_ofList]
    exact decide_eq_true_iff.trans same.not.symm

/-- Of an end with more lines, the last ones are shown. -/
theorem EndWithin.limited_last {limit : ℕ} (cut : EndWithin text tailBytes tail)
    (beyond : limit < (textLines tail).length) : Limited text (some limit) tailBytes tail
      ("\n".intercalate ((lastLines limit tail).map String.ofList), true) := by
  have shown : ("\n".intercalate ((lastLines limit tail).map String.ofList)).toList =
      ['\n'].intercalate (lastLines limit tail) := by
    rw [String.toList_intercalate, List.map_map]
    congr 1
    exact List.map_id'' (fun _ => String.toList_ofList) _
  refine ⟨cut, fun short => absurd (short limit rfl) (Nat.not_le.mpr beyond), ?_, ?_, ?_⟩
  · rintro _ ⟨⟩ -
    exact shown
  · rintro _ ⟨⟩
    rw [shown]
    exact textLines_lastLines beyond
  · refine iff_of_true rfl fun same => lastLines_ne cut.isEnd beyond ?_
    rw [← shown]
    exact congrArg String.toList same

end Limits

/-- Every text is limited to the last lines of its longest end within the limits, without a slice off a
boundary, and the flag says whether anything is dropped. -/
theorem limitText_limited (text : String) (lineLimit tailBytes : Option ℕ) :
    (∀ rounds, 4 ≤ rounds → limitTextChecked rounds text lineLimit tailBytes =
      some (limitText text lineLimit tailBytes)) ∧
      ∃ tail, Limited text lineLimit tailBytes tail (limitText text lineLimit tailBytes) := by
  obtain ⟨tail, within, cut, checked⟩ := endWithin_spec text tailBytes
  cases lineLimit with
  | none =>
    have result : limitText text none tailBytes = (String.ofList tail, decide (tail ≠ text.toList)) := cut
    refine ⟨fun rounds enough => ?_, tail, ?_⟩
    · rw [limitTextChecked, checked rounds enough, result]
      rfl
    · rw [result]
      exact within.limited nofun
  | some limit =>
    rcases Nat.lt_or_ge limit (textLines tail).length with beyond | short
    · have more := Nat.not_le.mpr beyond
      have result : limitText text (some limit) tailBytes =
          ("\n".intercalate ((lastLines limit tail).map String.ofList), true) := by
        rw [limitText, cut]
        simp only [String.toList_ofList, if_neg more, lastLines]
      refine ⟨fun rounds enough => ?_, tail, ?_⟩
      · rw [limitTextChecked, checked rounds enough, result]
        simp only [Option.bind_eq_bind, Option.bind_some, String.toList_ofList, if_neg more, lastLines]
        rfl
      · rw [result]
        exact within.limited_last beyond
    · have result : limitText text (some limit) tailBytes =
          (String.ofList tail, decide (tail ≠ text.toList)) := by
        rw [limitText, cut]
        simp only [String.toList_ofList, if_pos short]
      refine ⟨fun rounds enough => ?_, tail, ?_⟩
      · rw [limitTextChecked, checked rounds enough, result]
        simp only [Option.bind_eq_bind, Option.bind_some, String.toList_ofList, if_pos short]
        rfl
      · rw [result]
        refine within.limited ?_
        rintro _ ⟨⟩
        exact short

/-- The boundary is inside of the second letter, and the last line has a carriage return of its own. -/
example : limitText "äöü\nb\r\nc\r" (some 2) (some 9) = ("b\nc\r", true) ∧
    tailUtf8Checked 4 "äöü" 3 = some ("ü", true) := by
  decide

end CueShell
