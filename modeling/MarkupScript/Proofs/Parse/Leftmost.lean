import MarkupScript.Proofs.Parse.Arrow

/-!
# What an expression starts with

A parser chooses a rule by the next token. The first lexeme of an expression is that of its leftmost
operand, or a parenthesis around it, so that both questions a parser asks there are answered by
going down on the left: how tight an expression the token can start, and whether an arrow function
comes next.
-/

namespace MarkupScript

/-! ### The first lexeme -/

/-- The level of the tightest expression that starts with a token; zero if none does. -/
def Kind.startLevel : Kind → Nat
  | .number _ | .string _ | .boolean _ | .null | .identifier _ => Level.primary
  | .keyword .this_ => Level.primary
  | .keyword .new_ => Level.call
  | .keyword .typeof_ => Level.unary
  | .symbol s => match s with
    | .leftParen | .leftBracket | .leftBrace => Level.primary
    | .not | .minus | .plus | .plusPlus | .minusMinus => Level.unary
    | _ => 0
  | _ => 0

/-- The first lexeme can start an expression of a level. -/
def StartsAt (level : Nat) (ls : List Lexeme) : Prop :=
  ∃ l rest, ls = l :: rest ∧ level ≤ l.kind.startLevel

namespace StartsAt

theorem cons {level : Nat} {l : Lexeme} (h : level ≤ l.kind.startLevel) (ls : List Lexeme) :
    StartsAt level (l :: ls) :=
  ⟨l, ls, rfl, h⟩

theorem append {level : Nat} {ls : List Lexeme} (h : StartsAt level ls) (ms : List Lexeme) :
    StartsAt level (ls ++ ms) := by
  obtain ⟨l, rest, rfl, hl⟩ := h
  exact ⟨l, rest ++ ms, rfl, hl⟩

theorem mono {level level' : Nat} {ls : List Lexeme} (h : StartsAt level ls)
    (hle : level' ≤ level) : StartsAt level' ls := by
  obtain ⟨l, rest, rfl, hl⟩ := h
  exact ⟨l, rest, rfl, Nat.le_trans hle hl⟩

theorem parensIf {level : Nat} {ls : List Lexeme} (h : StartsAt level ls) (needed : Bool)
    (hlevel : level ≤ Level.primary) : StartsAt level (lexemesParenthesisedIf needed ls) := by
  cases needed
  · exact h
  · exact cons hlevel _

/-- A place for a level starts with a token for that level. -/
theorem inPlace {e : Expr} {ls : List Lexeme} (h : StartsAt e.level ls) {least : Nat}
    (hleast : least ≤ Level.primary) : StartsAt least (e.lexemesInPlace least ls) := by
  unfold Expr.lexemesInPlace
  by_cases hl : e.level < least
  · simp only [hl, decide_true]
    exact cons hleast _
  · simp only [hl, decide_false]
    exact h.mono (Nat.not_lt.mp hl)

/-- Behind a guard an expression starts with a token of its own, which is no brace. -/
theorem guard {ls : List Lexeme} (h : StartsAt 1 ls) :
    ∃ l rest, guardLexemes ls = l :: rest ∧ 1 ≤ l.kind.startLevel ∧
      l.kind ≠ .symbol .leftBrace := by
  obtain ⟨l, rest, rfl, hl⟩ := h
  unfold guardLexemes
  cases hb : startsWithBrace (l :: rest) with
  | true => exact ⟨.mark .leftParen, _, rfl, by decide, nofun⟩
  | false =>
    refine ⟨l, rest, rfl, hl, fun hk => ?_⟩
    obtain ⟨kind, line⟩ := l
    obtain rfl : kind = .symbol .leftBrace := hk
    cases hb

end StartsAt

theorem Level.binary_lt_unary (op : BinaryOp) : Level.binary op < Level.unary := by
  have := op.precedence_bounds
  simp only [Level.binary, Level.conditional, Level.unary]
  omega

/-- An expression starts with a token for its level. -/
theorem Expr.startsAt : ∀ e : Expr, e.WellFormed → StartsAt e.level e.lexemes
  | .number value _, _ => by
    rw [Expr.lexemes, numberLexeme]
    split <;> exact .cons (Nat.le_refl _) _
  | .string _ _, _ => .cons (Nat.le_refl _) _
  | .boolean _ _, _ => .cons (Nat.le_refl _) _
  | .null _, _ => .cons (Nat.le_refl _) _
  | .this_ _, _ => .cons (Nat.le_refl _) _
  | .identifier name _, h => by
    refine .cons (l := .word name) ?_ _
    have hk : (Lexeme.word name).kind = .identifier name := h.2
    rw [hk]
    exact Nat.le_refl _
  | .binary left op right _, h => by
    have hlevel : Level.binary op ≤ Level.primary :=
      Nat.le_trans (Nat.le_of_lt (Level.binary_lt_unary op)) (by decide)
    exact ((left.startsAt h.1).inPlace hlevel |>.parensIf _ hlevel).append _
  | .unary op _ _, _ => .cons (by cases op <;> exact Nat.le_refl _) _
  | .update op true _ _, _ => .cons (by cases op <;> exact Nat.le_refl _) _
  | .update op false operand _, h =>
    (((operand.startsAt h.2).inPlace (by decide)).mono (Nat.le_succ Level.afterOperand)).append _
  | .member base property computed optional _, h => by
    have hb : StartsAt Level.call (base.lexemesInPlace Level.call base.lexemes) :=
      (base.startsAt h.1).inPlace (by decide)
    have ho := hb.parensIf base.isNumber (by decide)
    simp only [Expr.lexemes, memberLexemes, List.append_assoc]
    split <;> exact ho.append _
  | .call callee arguments _, h => by
    simp only [Expr.lexemes, Expr.level, List.append_assoc]
    exact ((callee.startsAt h.1).inPlace (by decide)).append _
  | .new _ _ _, _ => .cons (Nat.le_refl _) _
  | .conditional test _ _ _, h => by
    simp only [Expr.lexemes, Expr.level, List.append_assoc]
    exact (((test.startsAt h.1).inPlace (by decide)).mono (Nat.le_succ _)).append _
  | .object _ _, _ => .cons (Nat.le_refl _) _
  | .array _ _, _ => .cons (Nat.le_refl _) _
  | .arrow _ _ _, _ => .cons (Nat.succ_pos 12) _
  | .assignment target _ _ _, h => by
    simp only [Expr.lexemes, Expr.level]
    exact (((target.startsAt h.2.1).inPlace (by decide)).mono (by decide)).append _
termination_by structural e => e

namespace Parse

/-! ### No arrow function -/

namespace NoArrow

/-- Only a name or a parenthesis can start an arrow function. -/
theorem cons {l : Lexeme} {ls : List Lexeme} (hname : ∀ x, l.kind ≠ .identifier x)
    (hparen : l.kind ≠ .symbol .leftParen) : NoArrow (l :: ls) := by
  intro b els ahead rest hs _
  have hk : (Stream.mk b ahead els).kind = l.kind := hs.nextKind
  unfold arrowAhead
  split
  · exact absurd (hk.symm.trans ‹_›) (hname _)
  · exact absurd (hk.symm.trans ‹_›) hparen
  · rfl

theorem head?_any_arrow {rest : List Token} (h : nextKind rest ≠ .symbol .arrow) :
    rest.head?.any (·.kind == .symbol .arrow) = false := by
  cases rest with
  | nil => rfl
  | cons t rest => simpa using h

/-- A name alone starts none. -/
theorem identifier {x : String} (hx : IsIdentifier x) : NoArrow [.word x] := by
  rintro b els ahead rest ⟨t, ahead', rfl, ⟨ht, -⟩, rfl⟩ hrest
  have ht : t.kind = .identifier x := ht.trans hx.2
  simpa [arrowAhead, Stream.kind_mk, ht, List.head?_eq_getElem?] using head?_any_arrow hrest

/-- The partner of the first parenthesis is the last lexeme. -/
theorem parens {ls : List Lexeme} (h : Balanced ls) :
    NoArrow (.mark .leftParen :: ls ++ [.mark .rightParen]) := by
  rintro b els ahead rest ⟨t, ahead', rfl, ⟨ht, -⟩, hs⟩ hrest
  obtain ⟨middle, h₁, u, rest', rfl, ⟨hu, -⟩, rfl⟩ := shows_append.mp hs
  have ht : t.kind = .symbol .leftParen := ht
  have hu : u.kind = .symbol .rightParen := hu
  simp only [arrowAhead, Stream.kind_mk, nextKind_cons, ht]
  rw [arrowAfterParens_eq, behindParens_open ht, h ahead' _ 0 h₁, behindParens_close hu]
  exact head?_any_arrow hrest

/-- What stands behind does not matter if it does not start with an arrow. -/
theorem append {ls ms : List Lexeme} {l : Lexeme} (h : NoArrow ls)
    (hl : l.kind ≠ .symbol .arrow) : NoArrow (ls ++ l :: ms) := by
  intro b els ahead rest hs _
  obtain ⟨middle, h₁, h₂⟩ := shows_append.mp hs
  exact h b els ahead middle h₁ (h₂.nextKind ▸ hl)

theorem parensIf {ls : List Lexeme} (h : NoArrow ls) (hb : Balanced ls) (needed : Bool) :
    NoArrow (lexemesParenthesisedIf needed ls) := by
  cases needed
  · exact h
  · exact parens hb

end NoArrow

end Parse

open Parse

/-- Whether an expression is an arrow function. -/
def Expr.isArrow : Expr → Bool
  | .arrow _ _ _ => true
  | _ => false

/-- In a place for anything tighter, an arrow function is in parentheses. -/
theorem Parse.NoArrow.inPlace {e : Expr} (h : e.isArrow = false → NoArrow e.lexemes) {least : Nat}
    (hleast : Level.assignment < least) : NoArrow (e.lexemesInPlace least e.lexemes) := by
  unfold Expr.lexemesInPlace
  cases ha : e.isArrow with
  | false => exact (h ha).parensIf (Balanced.tree.expr e) _
  | true =>
    cases e with
    | arrow params body s =>
      have hl : (Expr.arrow params body s).level < least := hleast
      simp only [hl, decide_true]
      exact .parens (Balanced.tree.expr _)
    | _ => cases ha

/-- No expression but an arrow function is taken for one. -/
theorem Expr.noArrow : ∀ e : Expr, e.WellFormed → e.isArrow = false → NoArrow e.lexemes
  | .number value _, _, _ => by
    rw [Expr.lexemes, numberLexeme]
    split
    · exact .cons (by rintro _ ⟨⟩) (by rintro ⟨⟩)
    · exact .identifier isIdentifier_infinity
  | .string _ _, _, _ => .cons (by rintro _ ⟨⟩) (by rintro ⟨⟩)
  | .boolean _ _, _, _ => .cons (by rintro _ ⟨⟩) (by rintro ⟨⟩)
  | .null _, _, _ => .cons (by rintro _ ⟨⟩) (by rintro ⟨⟩)
  | .this_ _, _, _ => .cons (by rintro _ ⟨⟩) (by rintro ⟨⟩)
  | .identifier _ _, h, _ => .identifier h
  | .binary left op right _, h, _ => by
    have hlevel : Level.assignment < Level.binary op := by
      have := op.precedence_bounds
      simp only [Level.binary, Level.conditional, Level.assignment]
      omega
    have hl := NoArrow.inPlace (left.noArrow h.1) hlevel
    exact (hl.parensIf ((Balanced.tree.expr left).inPlace _) _).append (by cases op <;> rintro ⟨⟩)
  | .unary op _ _, _, _ => .cons (by cases op <;> rintro _ ⟨⟩) (by cases op <;> rintro ⟨⟩)
  | .update op true _ _, _, _ => .cons (by cases op <;> rintro _ ⟨⟩) (by cases op <;> rintro ⟨⟩)
  | .update op false operand _, h, _ =>
    (NoArrow.inPlace (operand.noArrow h.2) (by decide)).append (by cases op <;> rintro ⟨⟩)
  | .member base property computed optional _, h, _ => by
    have hb : NoArrow (base.lexemesInPlace Level.call base.lexemes) :=
      NoArrow.inPlace (base.noArrow h.1) (by decide)
    have ho := hb.parensIf ((Balanced.tree.expr base).inPlace _) base.isNumber
    simp only [Expr.lexemes, memberLexemes, List.append_assoc, List.cons_append]
    split <;> exact ho.append (by rintro ⟨⟩)
  | .call callee arguments _, h, _ => by
    simp only [Expr.lexemes, List.append_assoc, List.cons_append]
    exact (NoArrow.inPlace (callee.noArrow h.1) (by decide)).append (by rintro ⟨⟩)
  | .new _ _ _, _, _ => .cons (by rintro _ ⟨⟩) (by rintro ⟨⟩)
  | .conditional test _ _ _, h, _ => by
    simp only [Expr.lexemes, List.append_assoc, List.cons_append]
    exact (NoArrow.inPlace (test.noArrow h.1) (by decide)).append (by rintro ⟨⟩)
  | .object _ _, _, _ => .cons (by rintro _ ⟨⟩) (by rintro ⟨⟩)
  | .array _ _, _, _ => .cons (by rintro _ ⟨⟩) (by rintro ⟨⟩)
  | .assignment target op _ _, h, _ =>
    (NoArrow.inPlace (target.noArrow h.2.1) (by decide)).append (by cases op <;> rintro ⟨⟩)
termination_by structural e => e

end MarkupScript
