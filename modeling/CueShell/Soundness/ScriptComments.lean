import CueShell.Proofs.CommentScans
import CueShell.Proofs.StatementChunks

/-! # Comments and quoted strings

A file script loses its comments line by line before it is tokenized. Where a line begins at a token,
and up to its comment no word has an apostrophe in it and the tokenizer fails at most on a string that
does not end, the line is cut where a token begins, and it is cut at the first `#` that begins a word
outside of quoted strings.
-/

namespace CueShell

open CommentScan

namespace Tokenizer

/-- The states in which a token begins. -/
def starts : ℕ → Tokenizer → List Tokenizer
  | 0, _ => []
  | rounds + 1, t =>
      if t.rest = [] then []
      else
        t :: match t.nextToken with
          | .ok (_, next) => starts rounds next
          | .error _ => []

def opensQuote (t : Tokenizer) : Bool := t.rest.head? == some '"' || t.rest.head? == some '\''

/-- The tokens of a line up to its comment: only quoted strings have an apostrophe in them or fail. The
line ends where `after` characters are left. -/
def quotesClear (after : ℕ) : ℕ → Bool → Tokenizer → Bool
  | 0, _, _ => true
  | rounds + 1, boundary, t =>
      if t.rest.length ≤ after ∨ (boundary = true ∧ t.rest.head? = some '#') then true
      else
        match t.nextToken with
        | .ok (_, next) =>
            (t.opensQuote || !(t.rest.take (t.rest.length - next.rest.length)).contains '\'') &&
              quotesClear after rounds (next.before.any isBlank) next
        | .error _ => t.opensQuote

variable {t next u : Tokenizer} {spanned : Spanned} {rounds : ℕ} {mid after text rest : List Char} {b : Bool}

theorem starts_shorter (member : u ∈ starts rounds t) : u.rest.length ≤ t.rest.length := by
  induction rounds generalizing t with
  | zero => simp [starts] at member
  | succ rounds ih =>
    rw [starts] at member
    split_ifs at member with none
    · simp at member
    · rcases List.mem_cons.mp member with rfl | later
      · exact Nat.le_refl _
      · split at later
        · next found =>
          exact (ih later).trans (nextToken_moves found none).2.le
        · simp at later

end Tokenizer

/-- A `#` behind `front` begins a word: it stands at the start or behind a blank. -/
def BeginsWord (b : Bool) (front : List Char) : Prop := (front.getLast?.map isBlank).getD b = true

/-- The cut of a line and the tokens that begin in it agree. -/
structure CutsAgree (b : Bool) (mid after : List Char) (begun : List Tokenizer) : Prop where
  cut : ∀ front back, mid = front ++ '#' :: back → beforeComment (outside b) mid = some front →
    ∃ u ∈ begun, u.rest = '#' :: back ++ after
  found : ∀ front back, mid = front ++ '#' :: back → BeginsWord b front →
    (∃ u ∈ begun, u.rest = '#' :: back ++ after) →
      ∃ kept, kept <+: front ∧ beforeComment (outside b) mid = some kept

section Agree

open Tokenizer

variable {t next u : Tokenizer} {begun : List Tokenizer} {mid after text rest : List Char} {b b' : Bool}

theorem CutsAgree.of_no_comment (plain : '#' ∉ mid) : CutsAgree b mid after begun where
  cut front back split := absurd (by simp [split]) plain
  found front back split := absurd (by simp [split]) plain

/-- A comment at the start. -/
theorem CutsAgree.comment (shape : t.rest = '#' :: text ++ after) :
    CutsAgree true ('#' :: text) after (t :: begun) where
  cut front back split is := by
    obtain rfl : front = [] := (Option.some.inj is).symm
    obtain rfl := (List.cons.inj split).2
    exact ⟨t, by simp, shape⟩
  found front back split word begins := ⟨[], List.nil_prefix, rfl⟩

/-- Where no comment starts, no word that begins with `#` does. -/
theorem not_begins_here {front back : List Char} (shape : t.rest = mid ++ after)
    (plain : ¬(b = true ∧ mid.head? = some '#')) (split : mid = front ++ '#' :: back)
    (word : BeginsWord b front) : t.rest ≠ '#' :: back ++ after := by
  intro rest
  have sizes := congrArg List.length (shape.symm.trans rest)
  rw [split] at sizes
  simp only [List.length_append, List.length_cons] at sizes
  obtain rfl : front = [] := List.eq_nil_of_length_eq_zero (by omega)
  exact plain ⟨word, by simp [split]⟩

/-- Nothing is cut, and no other token begins in the line. -/
theorem CutsAgree.open (shape : t.rest = mid ++ after) (plain : ¬(b = true ∧ mid.head? = some '#'))
    (passed : beforeComment (outside b) mid = none) (later : ∀ u ∈ begun, u.rest.length ≤ after.length) :
    CutsAgree b mid after (t :: begun) where
  cut front back split is := by simp [passed] at is
  found front back split word begins := by
    obtain ⟨u, member, rest⟩ := begins
    rcases List.mem_cons.mp member with rfl | member
    · exact absurd rest (not_begins_here shape plain split word)
    · have short := later u member
      rw [rest] at short
      simp only [List.length_append, List.length_cons] at short
      omega

/-- The scan passes over a token. -/
theorem CutsAgree.token (shape : t.rest = (text ++ mid) ++ after)
    (plain : ¬(b = true ∧ (text ++ mid).head? = some '#'))
    (passed : (outside b).past text = some (outside b'))
    (behind : (text.getLast?.map isBlank).getD b = b')
    (later : ∀ u ∈ begun, u.rest.length ≤ (mid ++ after).length)
    (agree : CutsAgree b' mid after begun) : CutsAgree b (text ++ mid) after (t :: begun) where
  cut front back split is := by
    rw [beforeComment_append passed] at is
    obtain ⟨kept, cut, rfl⟩ := Option.map_eq_some_iff.mp is
    rw [List.append_assoc, List.append_cancel_left_eq] at split
    obtain ⟨u, member, rest⟩ := agree.cut kept back split cut
    exact ⟨u, List.mem_cons_of_mem _ member, rest⟩
  found front back split word begins := by
    obtain ⟨u, member, rest⟩ := begins
    rcases List.mem_cons.mp member with rfl | member
    · exact absurd rest (not_begins_here shape plain split word)
    · -- the `#` stands behind the token, since the later states do
      have short := later u member
      have sizes := congrArg List.length split
      rw [rest] at short
      simp only [List.length_append, List.length_cons] at short sizes
      obtain ⟨more, rfl⟩ : text <+: front :=
        List.prefix_of_prefix_length_le ⟨mid, split⟩ (List.prefix_append _ _) (by omega)
      rw [List.append_assoc, List.append_cancel_left_eq] at split
      have wordThere : BeginsWord b' more := by
        cases more with
        | nil => simpa [BeginsWord, ← behind] using word
        | cons c more => simpa [BeginsWord, List.getLast?_append, List.getLast?_cons] using word
      obtain ⟨kept, within, cut⟩ := agree.found more back split wordThere ⟨u, member, rest⟩
      refine ⟨text ++ kept, List.prefix_append_right_inj text |>.mpr within, ?_⟩
      rw [beforeComment_append passed, cut, Option.map_some]

/-- What becomes of a string that opens in a line: it ends there, or the scan stays inside of it and no
token begins behind it in the line. -/
inductive StringRead (b : Bool) (t : Tokenizer) (mid after : List Char) : Prop
  | ends {text rest : List Char} {quote : Char} {spanned : Spanned} {next : Tokenizer} :
      mid = text ++ rest → t.nextToken = .ok (spanned, next) → next.rest = rest ++ after →
      text.getLast? = some quote → next.before = some quote → isBlank quote = false →
      (outside b).past text = some (outside false) → StringRead b t mid after
  | goesOn : beforeComment (outside b) mid = none →
      (∀ spanned next, t.nextToken = .ok (spanned, next) → next.rest.length ≤ after.length) →
      StringRead b t mid after

theorem readsDouble (shape : t.rest = '"' :: (mid ++ after)) : StringRead b t ('"' :: mid) after := by
  have follow := nextToken_double shape
  rw [tokenizeQuotedString] at follow
  cases quoted : doubleQuoted mid with
  | ok found =>
    obtain ⟨content, text, rest⟩ := found
    obtain ⟨rfl, -⟩ := doubleQuoted_ok quoted
    obtain ⟨front, ended⟩ := doubleQuoted_last quoted
    have last : ('"' :: text).getLast? = some '"' := by simp [ended, List.getLast?_cons]
    rw [List.append_assoc, doubleQuoted_text quoted] at follow
    refine .ends (List.cons_append ..).symm follow rfl last ?_ rfl ?_
    · simp only [last, Option.some_or]
    · rw [past, step_double, Option.bind_some]
      exact over_doubleQuoted quoted
  | error escape =>
    refine .goesOn ?_ ?_
    · rw [beforeComment, step_double]
      simp [beforeComment_doubleQuoted quoted]
    · intro spanned next found
      rw [follow] at found
      split at found
      · next content text rest read =>
        obtain rfl : next = (t.emitOther _ ('"' :: text) rest).2 := (congrArg Prod.snd (Except.ok.inj found)).symm
        -- a string that ends in the line would be read from the line alone
        by_contra long
        obtain ⟨split, -⟩ := doubleQuoted_ok read
        have sizes := congrArg List.length split
        simp only [emitOther, emit, List.length_append] at long sizes
        obtain ⟨more, rfl⟩ : text <+: mid :=
          List.prefix_of_prefix_length_le ⟨rest, split.symm⟩ (List.prefix_append _ _) (by omega)
        rw [doubleQuoted_text read] at quoted
        cases quoted
      · cases found
      · cases found

theorem readsSingle (shape : t.rest = '\'' :: (mid ++ after)) : StringRead b t ('\'' :: mid) after := by
  have follow := nextToken_single shape
  rw [tokenizeSingleQuotedString] at follow
  cases quoted : singleQuoted mid with
  | some found =>
    obtain ⟨content, rest⟩ := found
    obtain rfl := singleQuoted_ok quoted
    have last : ('\'' :: content ++ ['\'']).getLast? = some '\'' := by simp [List.getLast?_cons]
    rw [List.append_assoc, List.cons_append, singleQuoted_text quoted] at follow
    have split : '\'' :: (content ++ '\'' :: rest) = ('\'' :: content ++ ['\'']) ++ rest := by simp
    refine .ends split follow rfl last ?_ rfl ?_
    · simp only [last, Option.some_or]
    · rw [List.cons_append, past, step_single, Option.bind_some]
      exact over_singleQuoted quoted
  | none =>
    refine .goesOn ?_ ?_
    · rw [beforeComment, step_single]
      simp [beforeComment_singleQuoted quoted]
    · intro spanned next found
      rw [follow] at found
      split at found
      · next content rest read =>
        obtain rfl : next = (t.emitOther _ ('\'' :: content ++ ['\'']) rest).2 :=
          (congrArg Prod.snd (Except.ok.inj found)).symm
        by_contra long
        have split := singleQuoted_ok read
        have sizes := congrArg List.length split
        simp only [emitOther, emit, List.length_append, List.length_cons] at long sizes
        have within : content ++ ['\''] <+: mid ++ after := ⟨rest, by simp [split]⟩
        obtain ⟨more, rfl⟩ : content ++ ['\''] <+: mid :=
          List.prefix_of_prefix_length_le within (List.prefix_append _ _)
            (by simp only [List.length_append, List.length_singleton]; omega)
        rw [List.append_assoc, List.singleton_append, singleQuoted_text read] at quoted
        cases quoted
      · cases found

theorem readsString (shape : t.rest = mid ++ after) (nonempty : mid ≠ []) (quote : t.opensQuote = true) :
    StringRead b t mid after := by
  obtain ⟨c, body, rfl⟩ := List.exists_cons_of_ne_nil nonempty
  rw [opensQuote, shape, List.cons_append, List.head?_cons, Bool.or_eq_true, beq_iff_eq, beq_iff_eq] at quote
  rcases quote with double | single
  · obtain rfl := Option.some.inj double
    exact readsDouble shape
  · obtain rfl := Option.some.inj single
    exact readsSingle shape

theorem not_quote (noQuote : t.opensQuote = false) :
    ¬(t.rest.head? = some '"' ∨ t.rest.head? = some '\'') := by
  simp only [opensQuote, Bool.or_eq_false_iff, beq_eq_false_iff_ne] at noQuote
  simp [noQuote]

/-- A token other than a quoted string ends in its line, unless it is the line end behind a carriage
return. -/
theorem lexeme_within {token : Token} {last : Option TokenClass} {flag : Bool}
    (lexeme : Lexeme t token text rest last flag) (shape : t.rest = mid ++ after)
    (noQuote : t.opensQuote = false) (line : '\n' ∉ mid) (nonempty : mid ≠ [])
    (ends : after.head?.all (· == '\n') = true) :
    mid = ['\r'] ∨ ∃ behind, mid = text ++ behind ∧ rest = behind ++ after := by
  rcases List.append_eq_append_iff.mp (lexeme.split.symm.trans shape) with
    ⟨behind, split, rfl⟩ | ⟨beyond, rfl, rfl⟩
  · exact .inr ⟨behind, split, rfl⟩
  cases beyond with
  | nil => exact .inr ⟨[], by simp, by simp⟩
  | cons c beyond =>
    obtain rfl : c = '\n' := by simpa using ends
    left
    rcases lexeme.texture with quote | blanks | dark
    · exact absurd quote (not_quote noQuote)
    · exact absurd (blanks '\n' (by simp)) (by decide)
    · rcases dark.feed (by simp) with feed | feed
      · obtain ⟨d, front, rfl⟩ := List.exists_cons_of_ne_nil nonempty
        simp at feed
      · obtain ⟨d, front, rfl⟩ := List.exists_cons_of_ne_nil nonempty
        obtain ⟨rfl, tail⟩ := List.cons.inj feed
        cases front with
        | nil => rfl
        | cons e front => simp at tail

/-- The scan passes over a token that is not a quoted string. -/
theorem over_lexeme {token : Token} {last : Option TokenClass} {flag : Bool}
    (lexeme : Lexeme t token text rest last flag) (noQuote : t.opensQuote = false)
    (apostrophe : '\'' ∉ text) (plain : ¬(b = true ∧ text.head? = some '#')) :
    (outside b).past text = some (outside ((text.getLast?.map isBlank).getD b)) := by
  have nonempty := lexeme.nonempty
  obtain rfl | ⟨front, c, rfl⟩ := List.eq_nil_or_concat' text
  · exact absurd rfl nonempty
  rw [List.getLast?_concat, Option.map_some, Option.getD_some]
  rcases lexeme.texture with quote | blanks | dark
  · exact absurd quote (not_quote noQuote)
  · rw [over_blanks nonempty blanks, blanks c (by simp)]
  · rw [over_dark nonempty dark.dark dark.double apostrophe fun is head => plain ⟨is, head⟩,
      dark.dark c (by simp)]

/-- From a state of the tokenizer to the end of the line. -/
theorem cutsAgree_from {rounds : ℕ} (shape : t.rest = mid ++ after) (line : '\n' ∉ mid)
    (ends : after.head?.all (· == '\n') = true) (clear : quotesClear after.length rounds b t = true)
    (enough : t.rest.length ≤ rounds) : CutsAgree b mid after (starts rounds t) := by
  induction rounds generalizing t mid b with
  | zero =>
    have none : t.rest = [] := List.eq_nil_of_length_eq_zero (Nat.le_zero.mp enough)
    rw [shape, List.append_eq_nil_iff] at none
    exact .of_no_comment (by simp [none.1])
  | succ rounds ih =>
    by_cases none : mid = []
    · exact .of_no_comment (by simp [none])
    have more : t.rest ≠ [] := by simp [shape, none]
    rw [starts, if_neg more]
    by_cases comment : b = true ∧ mid.head? = some '#'
    · obtain ⟨rfl, head⟩ := comment
      obtain ⟨text, rfl⟩ := List.head?_eq_some_iff.mp head
      exact .comment shape
    have head : t.rest.head? = mid.head? := by
      obtain ⟨c, body, rfl⟩ := List.exists_cons_of_ne_nil none
      rw [shape]
      rfl
    have inside : ¬(t.rest.length ≤ after.length ∨ (b = true ∧ t.rest.head? = some '#')) := by
      rw [head, not_or]
      refine ⟨?_, comment⟩
      rw [shape, List.length_append]
      have := List.length_pos_of_ne_nil none
      omega
    rw [quotesClear, if_neg inside] at clear
    cases quote : t.opensQuote with
    | true =>
      cases readsString (b := b) shape none quote with
      | @ends text rest quote spanned next split follow behind last before dark passed =>
        subst split
        simp only [follow, Bool.and_eq_true, before, Option.any_some, dark] at clear ⊢
        refine .token shape comment passed (by simp [last, dark]) ?_ (ih behind ?_ clear.2 ?_)
        · exact fun u member => behind ▸ starts_shorter member
        · exact fun feed => line (List.mem_append_right _ feed)
        · have := (nextToken_moves follow more).2
          omega
      | goesOn passed later =>
        refine .open shape comment passed fun u member => ?_
        split at member
        · next found => exact (starts_shorter member).trans (later _ _ found)
        · simp at member
    | false =>
      cases follow : t.nextToken with
      | error failed => simp [follow, quote] at clear
      | ok found =>
        obtain ⟨spanned, next⟩ := found
        rcases nextToken_emits follow with ⟨nil, -⟩ | ⟨token, text, rest, last, flag, lexeme, emitted⟩
        · exact absurd nil more
        have moved := (nextToken_moves follow more).2
        simp only [emit, Prod.mk.injEq] at emitted
        obtain ⟨-, rfl⟩ := emitted
        simp only [follow, quote, Bool.false_or, Bool.and_eq_true] at clear moved ⊢
        obtain ⟨apostrophe, clear⟩ := clear
        have covered : t.rest.take (t.rest.length - rest.length) = text := by simp [lexeme.split]
        have free : '\'' ∉ text := by simpa [covered] using apostrophe
        rcases lexeme_within lexeme shape quote line none ends with rfl | ⟨behind, rfl, rfl⟩
        · exact .of_no_comment (by simp)
        · have plain : ¬(b = true ∧ text.head? = some '#') := by
            obtain ⟨c, body, rfl⟩ := List.exists_cons_of_ne_nil lexeme.nonempty
            exact comment
          refine .token shape comment (over_lexeme lexeme quote free plain) rfl ?_ (ih rfl ?_ ?_ ?_)
          · exact fun u member => starts_shorter member
          · exact fun feed => line (List.mem_append_right _ feed)
          · obtain nil | ⟨front, c, rfl⟩ := List.eq_nil_or_concat' text
            · exact absurd nil lexeme.nonempty
            · simpa using clear
          · exact Nat.le_of_lt_succ (Nat.lt_of_lt_of_le moved enough)

end Agree

section Files

open Tokenizer

variable {t t₀ : Tokenizer} {rounds : ℕ}

theorem starts_succ {spanned : Spanned} {next : Tokenizer} (more : t.rest ≠ [])
    (follow : t.nextToken = .ok (spanned, next)) :
    starts (rounds + 1) t = t :: starts rounds next := by
  simp [starts, more, follow]

/-- Rounds that are enough give all tokens. -/
theorem starts_enough (enough : t.rest.length ≤ rounds) : starts rounds t = starts t.rest.length t := by
  induction rounds using Nat.strong_induction_on generalizing t with
  | _ rounds ih =>
    cases rounds with
    | zero => rw [Nat.le_zero.mp enough]
    | succ rounds =>
      by_cases none : t.rest = []
      · simp [starts, none]
      obtain ⟨size, sized⟩ := Nat.exists_eq_succ_of_ne_zero (List.length_pos_of_ne_nil none).ne'
      rw [sized]
      cases follow : t.nextToken with
      | error failed => simp [starts, none, follow]
      | ok found =>
        have moved := (nextToken_moves follow none).2
        rw [starts_succ none follow, starts_succ none follow, ih rounds (by omega) (by omega),
          ih size (by omega) (by omega)]

/-- A run of the tokenizer from one of its states has all the later states of the whole run. -/
theorem mem_starts_iff {u : Tokenizer} (member : t₀ ∈ starts rounds t) (enough : t.rest.length ≤ rounds)
    (short : u.rest.length ≤ t₀.rest.length) :
    u ∈ starts rounds t ↔ u ∈ starts t₀.rest.length t₀ := by
  induction rounds generalizing t with
  | zero => simp [starts] at member
  | succ rounds ih =>
    by_cases here : t₀ = t
    · rw [here, starts_enough enough]
    by_cases none : t.rest = []
    · simp [starts, none] at member
    cases follow : t.nextToken with
    | error failed => simp [starts, none, follow, here] at member
    | ok found =>
      have moved := (nextToken_moves follow none).2
      rw [starts_succ none follow] at member ⊢
      rw [List.mem_cons, or_iff_right here] at member
      rw [← ih member (by omega), List.mem_cons, or_iff_right]
      rintro rfl
      have := starts_shorter member
      omega

/-- The lines of a file script as they are tokenized, numbered from `index`. -/
def normalizedLines (index : ℕ) (lines : List (List Char × Bool)) : List Char :=
  ((lines.zipIdx index).map fun ((line, ended), index) =>
    normalizeLine index line ++ if ended then ['\n'] else []).flatten

/-- A line of a file script. -/
structure FileLine (input : String) where
  earlier : List (List Char × Bool)
  line : List Char
  ended : Bool
  later : List (List Char × Bool)
  split : splitInclusive input.toList = earlier ++ (line, ended) :: later

namespace FileLine

variable {input : String} (place : FileLine input)

def body : List Char := (Text.stripSuffix ['\r'] place.line).getD place.line

/-- The tokenized text in front of the line. -/
def before : List Char := normalizedLines 0 place.earlier

/-- The tokenized text behind the line. -/
def after : List Char :=
  (if place.ended then ['\n'] else []) ++ normalizedLines (place.earlier.length + 1) place.later

/-- The tokens of the file script with this line left whole. -/
def begun : List Tokenizer :=
  let text := place.before ++ (place.body ++ place.after)
  starts text.length (Tokenizer.new (String.ofList text))

/-- The line is stripped of its comment, not dropped as the line that names an interpreter. -/
def Stripped : Prop := ¬(place.earlier = [] ∧ ['#', '!'].isPrefixOf place.body)

/-- The line is cut only where a token begins outside of quoted strings, and at the first `#` that begins
a word there. -/
def Agrees : Prop := CutsAgree true place.body place.after place.begun

/-- The line begins at a token, and up to its comment only quoted strings have an apostrophe in them or
fail. -/
def Clear : Prop :=
  ∃ t ∈ place.begun, t.rest = place.body ++ place.after ∧
    quotesClear place.after.length t.rest.length true t = true

theorem body_plain : '\n' ∉ place.body := by
  have fresh := (splitInclusive_line place.split).1
  rw [body, Text.stripSuffix]
  split_ifs
  · exact fun feed => fresh (List.mem_of_mem_take feed)
  · exact fresh

theorem after_ends : place.after.head?.all (· == '\n') = true := by
  rw [after]
  cases ended : place.ended with
  | true => rfl
  | false =>
    rw [(splitInclusive_line place.split).2 ended]
    rfl

/-- What is tokenized is the text before the line, what is left of the line, and the text behind it. -/
theorem normalized : normalizeFileScript input.toList =
    place.before ++ (normalizeLine place.earlier.length place.line ++ place.after) := by
  have whole : normalizeFileScript input.toList = normalizedLines 0 (splitInclusive input.toList) := rfl
  rw [whole, place.split, normalizedLines, List.zipIdx_append, List.zipIdx_cons, List.map_append,
    List.map_cons, List.flatten_append, List.flatten_cons, Nat.zero_add, List.append_assoc]
  rfl

theorem agrees_of_clear (clear : place.Clear) : place.Agrees := by
  obtain ⟨t, member, shape, clear⟩ := clear
  have agree := cutsAgree_from shape place.body_plain place.after_ends clear (Nat.le_refl _)
  have same {front back : List Char} {u : Tokenizer} (split : place.body = front ++ '#' :: back)
      (behind : u.rest = '#' :: back ++ place.after) : u ∈ place.begun ↔ u ∈ starts t.rest.length t := by
    refine mem_starts_iff member (by simp [Tokenizer.new]) ?_
    rw [behind, shape, split]
    simp only [List.length_append, List.length_cons]
    omega
  refine ⟨fun front back split cut => ?_, fun front back split word begins => ?_⟩
  · obtain ⟨u, inside, behind⟩ := agree.cut front back split cut
    exact ⟨u, (same split behind).mpr inside, behind⟩
  · obtain ⟨u, inside, behind⟩ := begins
    exact agree.found front back split word ⟨u, (same split behind).mp inside, behind⟩

end FileLine

end Files

end CueShell
