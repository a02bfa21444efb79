import CueShell.Model.Parser.Statements
import CueShell.Proofs.Lexemes

/-! # The comment scan along the tokens

The scan of a line and the tokenizer keep their own state about quotes. A token that is not a quoted
string and has no quote in it leaves the scan outside of quotes, and so does a string that ends in the
line; a string that does not end in the line keeps the scan inside to the end of the line.
-/

namespace CueShell

open Tokenizer

namespace CommentScan

variable {text rest content : List Char} {b : Bool}

/-- Outside of quotes. -/
def outside (boundary : Bool) : CommentScan := ⟨false, false, false, boundary⟩

/-- The scan behind a text, or `none` where a comment starts in it. -/
def past : CommentScan → List Char → Option CommentScan
  | scan, [] => some scan
  | scan, c :: rest => (scan.step c).bind fun scan => scan.past rest

theorem beforeComment_append {scan scan' : CommentScan} (passes : scan.past text = some scan')
    (rest : List Char) :
    beforeComment scan (text ++ rest) = (beforeComment scan' rest).map (text ++ ·) := by
  induction text generalizing scan with
  | nil =>
    obtain rfl : scan = scan' := Option.some.inj passes
    simp
  | cons c text ih =>
    obtain ⟨next, stepped, passes⟩ := Option.bind_eq_some_iff.mp passes
    rw [List.cons_append, beforeComment, stepped]
    simp only [ih passes, Option.map_map]
    rfl

/-- A text without blanks and quotes ends away from a boundary. -/
theorem over_dark (nonempty : text ≠ []) (dark : ∀ c ∈ text, isBlank c = false)
    (double : '"' ∉ text) (single : '\'' ∉ text) (plain : b = true → text.head? ≠ some '#') :
    (outside b).past text = some (outside false) := by
  induction text generalizing b with
  | nil => exact absurd rfl nonempty
  | cons c text ih =>
    rw [List.mem_cons, not_or] at double single
    obtain ⟨notDouble, double⟩ := double
    obtain ⟨notSingle, single⟩ := single
    obtain ⟨visible, dark⟩ := List.forall_mem_cons.mp dark
    have stays : ¬(c = ' ' ∨ c = '\t') := by simpa [isBlank] using visible
    have open' : ¬(c = '#' ∧ (outside b).boundary = true) := by
      rintro ⟨rfl, boundary⟩
      exact plain boundary rfl
    have stepped : (outside b).step c = some (outside false) := by
      simp only [step, outside] at open' ⊢
      simp [open', Ne.symm notDouble, Ne.symm notSingle, stays]
    rw [past, stepped, Option.bind_some]
    cases text with
    | nil => rfl
    | cons d text => exact ih (List.cons_ne_nil _ _) dark double single (by simp)

/-- Blanks end at a boundary. -/
theorem over_blanks (nonempty : text ≠ []) (blanks : ∀ c ∈ text, isBlank c = true) :
    (outside b).past text = some (outside true) := by
  induction text generalizing b with
  | nil => exact absurd rfl nonempty
  | cons c text ih =>
    obtain ⟨blank, blanks⟩ := List.forall_mem_cons.mp blanks
    have stepped : (outside b).step c = some (outside true) := by
      have isOne : c = ' ' ∨ c = '\t' := by simpa [isBlank] using blank
      rcases isOne with rfl | rfl <;> simp [step, outside]
    rw [past, stepped, Option.bind_some]
    cases text with
    | nil => rfl
    | cons d text => exact ih (List.cons_ne_nil _ _) blanks

def insideDouble : CommentScan := ⟨false, true, false, false⟩

def insideSingle : CommentScan := ⟨true, false, false, false⟩

theorem step_double (b : Bool) : (outside b).step '"' = some insideDouble := by
  cases b <;> rfl

theorem step_single (b : Bool) : (outside b).step '\'' = some insideSingle := by
  cases b <;> rfl

theorem step_insideDouble {c : Char} (quote : c ≠ '"') (slash : c ≠ '\\') :
    insideDouble.step c = some insideDouble := by
  simp [step, insideDouble, quote, slash]

theorem step_escape : insideDouble.step '\\' = some { insideDouble with escaped := true } := rfl

theorem step_escaped (c : Char) :
    ({ insideDouble with escaped := true } : CommentScan).step c = some insideDouble := rfl

theorem step_insideSingle {c : Char} (quote : c ≠ '\'') : insideSingle.step c = some insideSingle := by
  simp [step, insideSingle, quote]

theorem ne_slash {c : Char} {body : List Char} (last : c = '\\' → body = [] → False)
    (slash : ∀ (d : Char) (more : List Char), c = '\\' → body = d :: more → False) : c ≠ '\\' := by
  cases body with
  | nil => exact fun is => last is rfl
  | cons d body => exact fun is => slash d body is rfl

/-- The scan leaves a double-quoted string where the tokenizer does. -/
theorem over_doubleQuoted {body : List Char} (found : doubleQuoted body = .ok (content, text, rest)) :
    insideDouble.past text = some (outside false) := by
  fun_induction doubleQuoted body generalizing content text with
  | case1 => simp at found
  | case2 body =>
    simp only [Except.ok.injEq, Prod.mk.injEq] at found
    obtain ⟨-, rfl, -⟩ := found
    rfl
  | case3 => simp at found
  | case4 c body ih =>
    obtain ⟨⟨front, source, after⟩, inner, done⟩ := Parser.bind_eq_ok.mp found
    simp only [Except.ok.injEq, Prod.mk.injEq] at done
    obtain ⟨-, rfl, rfl⟩ := done
    rw [past, step_escape, Option.bind_some, past, step_escaped, Option.bind_some]
    exact ih inner
  | case5 c body quote last slash ih =>
    obtain ⟨⟨front, source, after⟩, inner, done⟩ := Parser.bind_eq_ok.mp found
    simp only [Except.ok.injEq, Prod.mk.injEq] at done
    obtain ⟨-, rfl, rfl⟩ := done
    have other := ne_slash last slash
    rw [past, step_insideDouble quote other, Option.bind_some]
    exact ih inner

/-- A double-quoted string ends in its quote. -/
theorem doubleQuoted_last {body : List Char} (found : doubleQuoted body = .ok (content, text, rest)) :
    ∃ front, text = front ++ ['"'] := by
  fun_induction doubleQuoted body generalizing content text with
  | case1 => simp at found
  | case2 body =>
    simp only [Except.ok.injEq, Prod.mk.injEq] at found
    exact ⟨[], found.2.1.symm⟩
  | case3 => simp at found
  | case4 c body ih =>
    obtain ⟨⟨front, source, after⟩, inner, done⟩ := Parser.bind_eq_ok.mp found
    simp only [Except.ok.injEq, Prod.mk.injEq] at done
    obtain ⟨-, rfl, rfl⟩ := done
    obtain ⟨front, rfl⟩ := ih inner
    exact ⟨'\\' :: c :: front, rfl⟩
  | case5 c body quote last slash ih =>
    obtain ⟨⟨front, source, after⟩, inner, done⟩ := Parser.bind_eq_ok.mp found
    simp only [Except.ok.injEq, Prod.mk.injEq] at done
    obtain ⟨-, rfl, rfl⟩ := done
    obtain ⟨front, rfl⟩ := ih inner
    exact ⟨c :: front, rfl⟩

/-- No comment starts in a double-quoted string that does not end. -/
theorem beforeComment_doubleQuoted {body : List Char} {escape : Bool}
    (fails : doubleQuoted body = .error escape) : beforeComment insideDouble body = none := by
  fun_induction doubleQuoted body generalizing escape with
  | case1 => rfl
  | case2 => simp at fails
  | case3 => rfl
  | case4 c body ih =>
    rw [beforeComment, step_escape]
    dsimp only
    rw [beforeComment, step_escaped]
    cases inner : doubleQuoted body with
    | error escape' => simp [ih inner]
    | ok found => simp [inner, Parser.ok_bind] at fails
  | case5 c body quote last slash ih =>
    have other := ne_slash last slash
    rw [beforeComment, step_insideDouble quote other]
    cases inner : doubleQuoted body with
    | error escape' => simp [ih inner]
    | ok found => simp [inner, Parser.ok_bind] at fails

/-- A double-quoted string ends at the same place whatever follows it. -/
theorem doubleQuoted_text {body : List Char} (found : doubleQuoted body = .ok (content, text, rest))
    (after : List Char) : doubleQuoted (text ++ after) = .ok (content, text, after) := by
  fun_induction doubleQuoted body generalizing content text with
  | case1 => simp at found
  | case2 body =>
    simp only [Except.ok.injEq, Prod.mk.injEq] at found
    obtain ⟨rfl, rfl, -⟩ := found
    rfl
  | case3 => simp at found
  | case4 c body ih =>
    obtain ⟨⟨front, source, more⟩, inner, done⟩ := Parser.bind_eq_ok.mp found
    simp only [Except.ok.injEq, Prod.mk.injEq] at done
    obtain ⟨rfl, rfl, rfl⟩ := done
    simp [doubleQuoted, ih inner, Parser.ok_bind]
  | case5 c body quote last slash ih =>
    obtain ⟨⟨front, source, more⟩, inner, done⟩ := Parser.bind_eq_ok.mp found
    simp only [Except.ok.injEq, Prod.mk.injEq] at done
    obtain ⟨rfl, rfl, rfl⟩ := done
    have other := ne_slash last slash
    rw [List.cons_append, doubleQuoted, ih inner, Parser.ok_bind] <;> simp_all

theorem over_singleQuoted (found : singleQuoted text = some (content, rest)) :
    insideSingle.past (content ++ ['\'']) = some (outside false) := by
  fun_induction singleQuoted text generalizing content with
  | case1 => simp at found
  | case2 text =>
    obtain ⟨rfl, rfl⟩ := Prod.mk.inj (Option.some.inj found)
    rfl
  | case3 c text quote ih =>
    obtain ⟨⟨front, after⟩, inner, done⟩ := Option.map_eq_some_iff.mp found
    obtain ⟨rfl, rfl⟩ := Prod.mk.inj done
    rw [List.cons_append, past, step_insideSingle quote, Option.bind_some]
    exact ih inner

/-- No comment starts in a single-quoted string that does not end. -/
theorem beforeComment_singleQuoted (fails : singleQuoted text = none) :
    beforeComment insideSingle text = none := by
  fun_induction singleQuoted text with
  | case1 => rfl
  | case2 => simp at fails
  | case3 c text quote ih =>
    rw [beforeComment, step_insideSingle quote]
    simp [ih (by simpa using fails)]

theorem singleQuoted_text (found : singleQuoted text = some (content, rest)) (after : List Char) :
    singleQuoted (content ++ '\'' :: after) = some (content, after) := by
  fun_induction singleQuoted text generalizing content with
  | case1 => simp at found
  | case2 text =>
    obtain ⟨rfl, rfl⟩ := Prod.mk.inj (Option.some.inj found)
    rfl
  | case3 c text quote ih =>
    obtain ⟨⟨front, more⟩, inner, done⟩ := Option.map_eq_some_iff.mp found
    obtain ⟨rfl, rfl⟩ := Prod.mk.inj done
    rw [List.cons_append, singleQuoted, ih inner] <;> simp_all

end CommentScan

section Texts

variable {t : Tokenizer} {token : Token} {text rest : List Char} {last : Option TokenClass} {flag : Bool}

theorem nextToken_double {body : List Char} (shape : t.rest = '"' :: body) :
    t.nextToken = t.tokenizeQuotedString body := by
  simp [nextToken, tokenizeWord, shape, isBlank, idRefAt, tryIdKind]

theorem nextToken_single {body : List Char} (shape : t.rest = '\'' :: body) :
    t.nextToken = t.tokenizeSingleQuotedString body := by
  simp [nextToken, tokenizeWord, shape, isBlank, idRefAt, tryIdKind]

/-- A text inside a line that the scan passes over like a word. -/
structure DarkText (text : List Char) : Prop where
  dark : ∀ c ∈ text, isBlank c = false
  double : '"' ∉ text
  feed : '\n' ∈ text → text = ['\n'] ∨ text = ['\r', '\n']

theorem darkText_of_delimiters (free : ∀ c ∈ text, isDelimiter c = false) : DarkText text where
  dark c inside := by
    have := free c inside
    simp_all [isDelimiter, isBlank]
  double inside := absurd (free _ inside) (by decide)
  feed inside := absurd (free _ inside) (by decide)

theorem darkText_of_all (dark : text.all (fun c => !isBlank c && c != '"' && c != '\n') = true) :
    DarkText text where
  dark c inside := by
    have := List.all_eq_true.mp dark c inside
    simp_all
  double inside := by simpa using List.all_eq_true.mp dark _ inside
  feed inside := by simpa using List.all_eq_true.mp dark _ inside

/-- A token is a quoted string, a run of blanks, or has neither blanks nor double quotes. -/
theorem Lexeme.texture (lexeme : Lexeme t token text rest last flag) :
    (t.rest.head? = some '"' ∨ t.rest.head? = some '\'') ∨ (∀ c ∈ text, isBlank c = true) ∨
      DarkText text := by
  cases lexeme with
  | lineFeed => exact .inr (.inr ⟨by simp [isBlank], by simp, fun _ => .inl rfl⟩)
  | returnFeed => exact .inr (.inr ⟨by simp [isBlank], by simp, fun _ => .inr rfl⟩)
  | blanks => exact .inr (.inl fun c inside => (List.mem_takeWhile_imp inside))
  | command shape start named =>
    refine .inr (.inr (darkText_of_delimiters (List.forall_mem_cons.mpr ⟨rfl, ?_⟩)))
    exact fun c inside => not_delimiter_of_ident (List.mem_takeWhile_imp inside)
  | operator visible shape =>
    refine .inr (.inr (darkText_of_all ?_))
    cases token <;> rfl
  | @idRef kind number digits atHead =>
    obtain ⟨covered, -, -, -, digit⟩ := idRefAt_eq_some atHead
    refine .inr (.inr (darkText_of_delimiters ?_))
    rw [covered]
    intro c inside
    rcases List.mem_append.mp inside with letter | number
    · cases kind <;> simp [IdKind.display] at letter <;> subst letter <;> rfl
    · exact not_delimiter_of_ident (isIdentChar_of_isDigit (digit c number))
  | double shape quoted => exact .inl (.inl (by simp [shape]))
  | single shape quoted => exact .inl (.inr (by simp [shape]))
  | value _ gobbled => exact .inr (.inr (darkText_of_delimiters (gobbleWord_ok gobbled).2.1))
  | word gobbled => exact .inr (.inr (darkText_of_delimiters (gobbleWord_ok gobbled).2.1))
  | _ => exact .inr (.inr (darkText_of_all rfl))

end Texts

end CueShell
