import CueShell.Proofs.Lexemes

/-! # The spans of tokens

The tokens of an input lie one behind the other: each covers a nonempty piece of the text, and the pieces
make up the text. So every span starts and ends between two characters.
-/

namespace CueShell

/-- Tokens one behind the other from a position on, with the end token behind the text. -/
inductive Chained : ℕ → List Char → List Spanned → Prop
  | nil {pos : ℕ} : Chained pos [] [⟨.eof, ⟨pos, pos⟩⟩]
  | cons {pos : ℕ} {token : Token} {text rest : List Char} {tokens : List Spanned} : text ≠ [] →
      token ≠ .eof → Chained (pos + Text.byteLength text) rest tokens →
      Chained pos (text ++ rest) (⟨token, ⟨pos, pos + Text.byteLength text⟩⟩ :: tokens)

section Loop

open Tokenizer

variable {t t' : Tokenizer} {spanned : Spanned} {tokens : List Spanned}

/-- Before the end a step covers a nonempty piece of the text. -/
theorem nextToken_piece_of_text (found : t.nextToken = .ok (spanned, t')) (more : t.rest ≠ []) :
    ∃ text, text ≠ [] ∧ t.rest = text ++ t'.rest ∧ spanned.token ≠ .eof ∧
      spanned.span = ⟨t.pos, t.pos + Text.byteLength text⟩ ∧ t'.pos = t.pos + Text.byteLength text := by
  rcases nextToken_emits found with ⟨none, -⟩ | ⟨token, text, rest, last, flag, lexeme, emitted⟩
  · exact absurd none more
  · simp only [emit, Prod.mk.injEq] at emitted
    obtain ⟨rfl, rfl⟩ := emitted
    exact ⟨text, lexeme.nonempty, lexeme.split, lexeme.ne_eof, rfl, rfl⟩

theorem tokenizeLoop_chained {fuel : ℕ} (enough : t.rest.length < fuel)
    (found : tokenizeLoop fuel t = .ok tokens) : Chained t.pos t.rest tokens := by
  induction fuel generalizing t tokens with
  | zero => exact absurd enough (Nat.not_lt_zero _)
  | succ fuel ih =>
    rw [tokenizeLoop] at found
    obtain ⟨⟨spanned, t'⟩, next, found⟩ := Parser.bind_eq_ok.mp found
    dsimp only at found
    by_cases more : t.rest = []
    · rw [nextToken_nil more] at next
      obtain ⟨rfl, rfl⟩ := Prod.mk.inj (Except.ok.inj next)
      obtain rfl : [_] = tokens := Except.ok.inj found
      rw [more]
      exact .nil
    · obtain ⟨text, nonempty, split, real, span, moved⟩ := nextToken_piece_of_text next more
      rw [if_neg real] at found
      obtain ⟨others, loop, done⟩ := Parser.bind_eq_ok.mp found
      obtain rfl : spanned :: others = tokens := Except.ok.inj done
      have shorter : t'.rest.length < fuel := by
        have length := List.length_pos_of_ne_nil nonempty
        rw [split, List.length_append] at enough
        omega
      obtain ⟨token, span'⟩ := spanned
      obtain rfl : span' = _ := span
      rw [split]
      exact .cons nonempty real (moved ▸ ih shorter loop)

theorem tokenize_chained {input : String} (found : tokenize input = .ok tokens) :
    Chained 0 input.toList tokens :=
  tokenizeLoop_chained (by simp [new, String.length_toList]) found

end Loop

section Spans

variable {pos : ℕ} {text : List Char} {tokens : List Spanned}

theorem byteLength_pos {text : List Char} (nonempty : text ≠ []) : 0 < Text.byteLength text := by
  obtain ⟨c, rest, rfl⟩ := List.exists_cons_of_ne_nil nonempty
  have size := c.utf8Size_pos
  rw [Text.byteLength_cons]
  omega

/-- Every token starts at or behind the position and does not end before its start. -/
theorem Chained.behind (chained : Chained pos text tokens) :
    ∀ spanned ∈ tokens, pos ≤ spanned.span.start ∧ spanned.span.start ≤ spanned.span.stop := by
  induction chained with
  | nil => simp
  | cons _ _ _ ih =>
    refine List.forall_mem_cons.mpr ⟨⟨le_rfl, Nat.le_add_right ..⟩, fun spanned member => ?_⟩
    obtain ⟨later, ordered⟩ := ih spanned member
    exact ⟨by omega, ordered⟩

end Spans

end CueShell
