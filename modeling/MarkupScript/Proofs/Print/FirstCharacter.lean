import MarkupScript.Proofs.Parse.Trees
import MarkupScript.Proofs.Token.Numbers
import MarkupScript.Proofs.Token.Strings

/-!
# The first character of an expression

Parentheses around a text depend on its first character, those around lexemes on the first lexeme.
Both come from the leftmost operand, so that they agree: the text of an expression starts with a
brace if its lexemes do. It never starts with `=`, which would extend an operator in front of it.
-/

namespace MarkupScript

theorem toList_parenthesisedIf (needed : Bool) (text : String) :
    (parenthesisedIf needed text).toList =
      if needed then '(' :: (text.toList ++ [')']) else text.toList := by
  cases needed <;> simp [parenthesisedIf]

theorem startsWithBrace_cons (l : Lexeme) (ls : List Lexeme) :
    startsWithBrace (l :: ls) = true ↔ l.kind = .symbol .leftBrace := by
  unfold startsWithBrace
  split
  · next h =>
    obtain ⟨rfl, -⟩ := List.cons.inj h
    simp
  · next h =>
    refine ⟨nofun, fun hk => ?_⟩
    obtain ⟨kind, sameLine, newLine⟩ := l
    cases hk
    exact absurd rfl (h sameLine newLine ls)

/-- A text and lexemes both start with a brace or both do not. -/
def StartsLike (text : List Char) (ls : List Lexeme) : Prop :=
  ∃ c cs l rest, text = c :: cs ∧ ls = l :: rest ∧ c ≠ '=' ∧
    (c = '{' ↔ l.kind = .symbol .leftBrace)

namespace StartsLike

variable {text : List Char} {ls : List Lexeme}

theorem cons {c : Char} {l : Lexeme} (hc : c ≠ '=') (hl : c = '{' ↔ l.kind = .symbol .leftBrace)
    (text : List Char) (ls : List Lexeme) : StartsLike (c :: text) (l :: ls) :=
  ⟨c, text, l, ls, rfl, rfl, hc, hl⟩

theorem append (h : StartsLike text ls) (more : List Char) (ms : List Lexeme) :
    StartsLike (text ++ more) (ls ++ ms) := by
  obtain ⟨c, cs, l, rest, rfl, rfl, hc, hl⟩ := h
  exact ⟨c, cs ++ more, l, rest ++ ms, rfl, rfl, hc, hl⟩

theorem parensIf {text : String} (h : StartsLike text.toList ls) (needed : Bool) :
    StartsLike (parenthesisedIf needed text).toList (lexemesParenthesisedIf needed ls) := by
  rw [toList_parenthesisedIf]
  cases needed
  · exact h
  · exact cons (by decide) (by simp [Lexeme.mark]) _ _

theorem inPlace {e : Expr} {text : String} (h : StartsLike text.toList ls) (least : Nat) :
    StartsLike (e.inPlace least text).toList (e.lexemesInPlace least ls) :=
  h.parensIf _

/-- A word starts with a character of its own. -/
theorem word {x : String} (hx : isIdentifierText x = true) {l : Lexeme}
    (hl : l.kind ≠ .symbol .leftBrace) (ls : List Lexeme) : StartsLike x.toList (l :: ls) := by
  obtain ⟨c, cs, hxs, hc, -⟩ := exists_cons_of_isIdentifierText hx
  have hne : c ≠ '=' ∧ c ≠ '{' := by
    constructor <;> rintro rfl <;> exact absurd hc (by decide +kernel)
  rw [hxs]
  exact cons hne.1 (by simp [hne.2, hl]) _ _

theorem startsWithChar (text : String) (h : StartsLike text.toList ls) :
    startsWithChar text '{' = startsWithBrace ls := by
  obtain ⟨c, cs, l, rest, htext, rfl, -, hl⟩ := h
  rw [Bool.eq_iff_iff, startsWithBrace_cons, ← hl, MarkupScript.startsWithChar, String.front?_eq,
    htext]
  simp

end StartsLike

/-- A unary operator stands apart from its operand, or the operand starts with another character. -/
theorem unaryText_cases (op : UnaryOp) (operand : String) :
    (unaryText op operand).toList = op.spelling.toList ++ ' ' :: operand.toList ∨
      (op ≠ .typeof_ ∧ operand.toList.head? ≠ op.spelling.toList.head? ∧
        (unaryText op operand).toList = op.spelling.toList ++ operand.toList) := by
  have hstart : ∀ c, (startsWithChar operand c = true) = (operand.toList.head? = some c) := by
    simp [startsWithChar, String.front?_eq]
  cases op with
  | typeof_ => exact .inl (by simp [unaryText])
  | _ =>
    simp only [unaryText]
    split
    · exact .inl (by simp)
    · next h => exact .inr ⟨nofun, by rwa [hstart] at h, by simp⟩

/-- A number that is not finite is printed as a name. -/
theorem Double.literal_eq_infinity {value : Double} (hfinite : value.isFinite = false)
    (hunsigned : value.isUnsigned = true) : value.literal = "Infinity" := by
  cases value with
  | nan => cases hunsigned
  | infinite negative =>
    obtain rfl : negative = false := by simpa [isUnsigned] using hunsigned
    rfl
  | finite negative x => cases hfinite

/-- The text and the lexemes of an expression start alike. -/
theorem Expr.startsLike (indent : Nat) : ∀ e : Expr, e.WellFormed →
    StartsLike (e.print indent).toList e.lexemes
  | .number value _, h => by
    rw [Expr.print, Expr.lexemes, numberLexeme]
    cases hfinite : value.isFinite with
    | true =>
      obtain ⟨w, f, hnumeral, htext, -⟩ := Double.literal_eq_numeral hfinite h
      obtain ⟨c, cs, hcons, hc⟩ := hnumeral.exists_cons
      have hne : c ≠ '=' ∧ c ≠ '{' := by
        constructor <;> rintro rfl <;> exact absurd hc (by decide)
      rw [htext, hcons]
      exact .cons hne.1 (by simp [hne.2]) _ _
    | false =>
      rw [Double.literal_eq_infinity hfinite h]
      exact .word isIdentifier_infinity.1 (l := .word "Infinity") (by decide) _
  | .string value _, _ => by
    rw [Expr.print, Text.toList_quote]
    exact .cons (by decide) (by simp [Lexeme.string]) _ _
  | .boolean value _, _ => by
    rw [Expr.print]
    cases value <;> exact .word (by decide +kernel) (by decide) _
  | .null _, _ => .word (x := "null") (by decide +kernel) (by decide) _
  | .this_ _, _ => .word (x := "this") (by decide +kernel) (by decide) _
  | .identifier name _, h => by
    refine .word h.1 ?_ _
    rw [Lexeme.word, h.2]
    rintro ⟨⟩
  | .binary left op right _, h => by
    simp only [Expr.print, Expr.lexemes, String.toList_append, List.append_assoc]
    exact (((left.startsLike indent h.1).inPlace _).parensIf _).append _ _
  | .unary op operand _, h => by
    rw [Expr.print, Expr.lexemes]
    rcases unaryText_cases op (operand.inPlace Level.unary (operand.print indent)) with
      htext | ⟨-, -, htext⟩ <;> rw [htext] <;> cases op <;> exact .cons (by decide) (by decide) _ _
  | .update op true operand _, _ => by
    simp only [Expr.print, Expr.lexemes, if_true, String.toList_append]
    cases op <;> exact .cons (by decide) (by decide) _ _
  | .update op false operand _, h => by
    simp only [Expr.print, Expr.lexemes, Bool.false_eq_true, if_false, String.toList_append]
    exact ((operand.startsLike indent h.2).inPlace _).append _ _
  | .member base property computed optional _, h => by
    have hb := ((base.startsLike indent h.1).inPlace (e := base) Level.call).parensIf
      base.isNumber
    simp only [Expr.print, Expr.lexemes, memberText, memberLexemes]
    split <;> simp only [String.toList_append, List.append_assoc] <;> exact hb.append _ _
  | .call callee _ _, h => by
    simp only [Expr.print, Expr.lexemes, String.toList_append, List.append_assoc]
    exact ((callee.startsLike indent h.1).inPlace _).append _ _
  | .new _ _ _, _ => by
    simp only [Expr.print, Expr.lexemes, String.toList_append, List.append_assoc]
    exact .cons (by decide) (by decide) _ _
  | .conditional test _ _ _, h => by
    simp only [Expr.print, Expr.lexemes, String.toList_append, List.append_assoc]
    exact ((test.startsLike indent h.1).inPlace _).append _ _
  | .object properties _, _ => by
    rw [Expr.print, Expr.lexemes]
    split
    · exact .cons (by decide) (by decide) _ _
    · simp only [String.toList_append, List.append_assoc]
      exact .cons (by decide) (by decide) _ _
  | .array _ _, _ => by
    simp only [Expr.print, Expr.lexemes, String.toList_append, List.append_assoc]
    exact .cons (by decide) (by decide) _ _
  | .arrow _ _ _, _ => by
    simp only [Expr.print, Expr.lexemes, String.toList_append, List.append_assoc]
    exact .cons (by decide) (by decide) _ _
  | .assignment target _ _ _, h => by
    simp only [Expr.print, Expr.lexemes, String.toList_append, List.append_assoc]
    exact ((target.startsLike indent h.2.1).inPlace _).append _ _
termination_by structural e => e

end MarkupScript
