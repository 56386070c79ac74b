import MarkupScript.Proofs.Parse.Results
import MarkupScript.Proofs.Parse.Trees
import MarkupScript.Proofs.Print.NewsApart
import MarkupScript.Proofs.Print.Programs

/-!
# Printing and parsing `new`

The text of an expression is read as the expression itself, up to spans, unless some `new` does not
take all of its callee. Then it is read as what `Expr.regrouped` makes of it. If a callee starts
with `new` again, as in `new new a()()`, the text is none of an expression.
-/

namespace MarkupScript

open Parse Scanner

/-- The expression that a source is, if it is one up to its end. -/
def readExpression? (source : String) : Option Expr :=
  match tokenize source with
  | .error _ => none
  | .ok tokens =>
    match Parse.anyExpression (.ofTokens tokens) with
    | .ok e s => if s.kind == .endOfInput then some e else none
    | .error _ _ => none

theorem wellFormed_of_readExpression? {source : String} {e : Expr}
    (h : readExpression? source = some e) : e.WellFormed := by
  unfold readExpression? at h
  split at h
  · cases h
  · next tokens htokens =>
    split at h
    · next e' s hparse =>
      split at h
      · cases h
        exact ((Rules.yield_nested _).expression (s := .ofTokens tokens)
          (tokenize_wellFormed htokens) hparse).2.2
      · cases h
    · cases h

/-- An expression is read as what its text means. -/
theorem isReadAs_regrouped :
    ExprInduction fun e =>
      e.IsSound (fun e => e.isInline && e.newIsApart) (fun _ => true) → e.IsReadAs e.regrouped where
  atom e he h := by
    have hback : e.IsSound Expr.readsBack Stmt.readsBack := by
      have hpasses := h.passes
      refine ⟨h.1, ?_⟩
      cases e with
      | number => simpa [Expr.isInline, Expr.newIsApart, Expr.every, Expr.readsBack] using hpasses
      | string | boolean | null | this_ | identifier => rfl
      | _ => cases he
    have hapart : e.IsSound (Expr.bodyApart Stmt.goesOn) (Stmt.bodyApart Stmt.goesOn) :=
      ⟨h.1, by cases e <;> first | rfl | cases he⟩
    have hsame : e.regrouped = e.reread := by cases e <;> first | rfl | cases he
    rw [hsame]
    exact isReadAs_tree.expr e hback hapart
  binary _ _ _ _ hl hr h := .binary h.1 (hl h.binary.1) (hr h.binary.2)
  unary _ _ _ ho h := .unary h.1 (ho h.unary)
  update _ _ _ _ ho h := .update h.1 (ho h.update) (Expr.isTarget_regrouped h.1.1)
  member _ property _ _ _ hb hp h := by
    refine .member h.1 (hb h.member.1) (fun hc => hp (h.member.2 hc)) ?_
    rintro rfl
    have hword : property.isWord = true := h.1.2
    cases property <;> first | rfl | cases hword
  call _ _ _ hc ha h := by
    rw [Expr.regrouped, exprsRegrouped_eq]
    exact .call h.1 (hc h.call.1) fun e he => ha e he (h.call.2 e he)
  new _ _ _ hc ha h := by
    rw [Expr.regrouped, exprsRegrouped_eq]
    exact .new h.1 h.passes (hc h.new.1) fun e he => ha e he (h.new.2 e he)
  conditional _ _ _ _ ht hc ha h :=
    .conditional h.1 (ht h.conditional.1) (hc h.conditional.2.1) (ha h.conditional.2.2)
  object ps _ hp h := by
    rw [Expr.regrouped, propertiesRegrouped_eq]
    refine .object h.1 (fun p hm hlong => hp p hm (h.object p hm hlong)) fun p hm hshort => ?_
    have hwf := propertiesWellFormed_iff.mp h.1 p hm
    simp only [Property.WellFormed, hshort, if_true] at hwf
    obtain ⟨-, span, hvalue⟩ := hwf
    rw [hvalue]
    rfl
  array _ _ hi h := by
    rw [Expr.regrouped, exprsRegrouped_eq]
    exact .array h.1 fun e he => hi e he (h.array e he)
  arrowExpression _ _ _ hv h := .arrowExpression h.1 (hv h.arrowExpression)
  arrowBlock _ _ _ h := absurd h.passes Bool.false_ne_true
  assignment _ _ _ _ ht hv h :=
    .assignment h.1 (ht h.assignment.1) (hv h.assignment.2) (Expr.isTarget_regrouped h.1.1)

/-- The tokens of an expression in parentheses are its lexemes. -/
theorem tokenize_parenthesised {e : Expr} (h : e.IsScanned) (indent : Nat) :
    ∃ tokens last, tokenize ("(" ++ e.print indent ++ ")") = .ok tokens ∧
      Shows (.mark .leftParen :: e.lexemes ++ [.mark .rightParen]) tokens [last] ∧
      last.kind = .endOfInput := by
  have hstart : Scans (.start ("(" ++ e.print indent ++ ")").toList) [] []
      ((parenthesisedIf true (e.print indent)).toList ++ [])
      (.start ("(" ++ e.print indent ++ ")").toList) := .start (List.append_nil _).symm rfl
  obtain ⟨s, hs, -⟩ := h.placed hstart rfl (fun hc => by cases hc) fun hc => by cases hc
  exact exists_tokens_of_moves hs.moves.of_onLine

/-- An expression without arrow blocks has no statements, so none that could look like tags. -/
theorem isScanned_of_isInline {e : Expr} (hwf : e.WellFormed)
    (h : e.every Expr.isInline (fun _ => true) = true) : e.IsScanned := by
  have hkeeps (x : Expr) (hx : x.isInline = true) (_ : x.isInline = true) :
      x.keepsComparisons = true := by
    cases x with
    | arrow _ body _ =>
      cases body with
      | expression => rfl
      | block => cases hx
    | _ => rfl
  exact isScanned_tree.expr e ⟨hwf, (Expr.every_of_isInline hkeeps).expr e h h⟩

/-- If no `new` has a callee whose text starts with `new`, the text of an expression in parentheses is
read as `Expr.regrouped` says. -/
theorem readExpression?_print_of_newIsApart {e : Expr} (hwf : e.WellFormed)
    (hinline : e.every Expr.isInline (fun _ => true) = true)
    (hapart : e.every Expr.newIsApart (fun _ => true) = true) (indent : Nat) :
    ∃ e', readExpression? ("(" ++ e.print indent ++ ")") = some e' ∧
      e'.withoutSpans = e.regrouped.withoutSpans := by
  have hboth (x : Expr) (hx : x.isInline = true) (hx' : x.newIsApart = true) :
      (x.isInline && x.newIsApart) = true := by rw [hx, hx', Bool.true_and]
  have hread := isReadAs_regrouped.expr e
    ⟨hwf, (Expr.every_of_isInline hboth).expr e hinline hapart⟩
  obtain ⟨tokens, last, htokens, hshows, hlast⟩ :=
    tokenize_parenthesised (isScanned_of_isInline hwf hinline) indent
  have hlength := shows_length hshows
  simp only [List.cons_append, List.length_cons, List.length_append] at hlength
  have hparens := (ReadsAs.parens (hread.part (n := tokens.length) (by omega))
    (Balanced.tree.expr e)).expression
  obtain ⟨e', b', hparse, hspans⟩ := hparens none [] tokens [last] hshows (by
    show (nextKind [last]).joinLevel < Level.assignment
    rw [nextKind_cons, hlast]
    decide)
  have hany : anyExpression (.ofTokens tokens) = .ok e' ⟨b', [last], []⟩ := hparse
  exact ⟨e', by simp [readExpression?, htokens, hany, hlast], hspans⟩

/-- If some `new` has a callee whose text starts with `new`, the text of an expression in parentheses
is none of an expression. -/
theorem readExpression?_print_of_not_newIsApart {e : Expr} (hwf : e.WellFormed)
    (hinline : e.every Expr.isInline (fun _ => true) = true)
    (hjoined : e.every Expr.newIsApart (fun _ => true) = false) (indent : Nat) :
    readExpression? ("(" ++ e.print indent ++ ")") = none := by
  obtain ⟨tokens, last, htokens, hshows, hlast⟩ :=
    tokenize_parenthesised (isScanned_of_isInline hwf hinline) indent
  simp only [readExpression?, htokens]
  cases hparse : anyExpression (.ofTokens tokens) with
  | error => rfl
  | ok e' s =>
    refine if_neg fun hend => ?_
    have hapart := anyExpression_keepsTwice.not_newTwice anyExpression_takes htokens hparse
      (by simpa using hend)
    rw [map_kind_of_shows hshows, List.map_append, List.map_cons, List.append_assoc] at hapart
    have hnews : NewsApart e.lexemes :=
      ⟨.symbol .leftParen, rfl, fun htwice => hapart (.inr htwice.append)⟩
    rw [Expr.every_newIsApart_of_newsApart hwf hinline hnews] at hjoined
    cases hjoined

/-- **What the text of `new` means.** Take an expression that was read, with finite numbers and no
arrow blocks. If no `new` is directly behind another `new` in its text, then in parentheses the text
is read as `Expr.regrouped` says, and that is the expression itself just if every `new` takes all of
its callee: if the callee is a call or looser than one, which is put in parentheses, or else a name
or literal with properties behind dots. In such an expression no `new` is directly behind another. If
one is, the text is none of an expression. -/
theorem readExpression?_print {source : String} {e : Expr} (h : readExpression? source = some e)
    (hinline : e.every Expr.isInline (fun _ => true) = true) (indent : Nat) :
    (e.every Expr.newIsApart (fun _ => true) = true →
      ∃ e', readExpression? ("(" ++ e.print indent ++ ")") = some e' ∧
        e'.withoutSpans = e.regrouped.withoutSpans ∧
        (e'.withoutSpans = e.withoutSpans ↔ e.every Expr.takesCallee (fun _ => true) = true)) ∧
    (e.every Expr.takesCallee (fun _ => true) = true →
      e.every Expr.newIsApart (fun _ => true) = true) ∧
    (e.every Expr.newIsApart (fun _ => true) = false →
      readExpression? ("(" ++ e.print indent ++ ")") = none) := by
  have hwf := wellFormed_of_readExpression? h
  refine ⟨fun hapart => ?_, (Expr.every_of_isInline fun _ _ => Expr.newIsApart_of_takesCallee).expr e
    hinline, fun hjoined => readExpression?_print_of_not_newIsApart hwf hinline hjoined indent⟩
  obtain ⟨e', he', hspans⟩ := readExpression?_print_of_newIsApart hwf hinline hapart indent
  refine ⟨e', he', hspans, ?_⟩
  rw [hspans]
  exact Expr.regrouped_eq_iff.expr e hinline

/-- A call, an operator, chains and `new` itself among callees and arguments of `new`. -/
def newText : String := "new (f(x))(y => new a.b.c(new (d + 1)(), (new this.z).w[0]), 1.5)"

theorem readExpression?_print_newText :
    ∃ e e', readExpression? newText = some e ∧ e.every Expr.isInline (fun _ => true) = true ∧
      e.every Expr.takesCallee (fun _ => true) = true ∧
      readExpression? ("(" ++ e.print 0 ++ ")") = some e' ∧ e'.withoutSpans = e.withoutSpans := by
  have hchecks : (readExpression? newText).any (fun e => e.every Expr.isInline (fun _ => true) &&
      e.every Expr.takesCallee (fun _ => true)) = true := by decide +kernel
  cases he : readExpression? newText with
  | none =>
    rw [he] at hchecks
    cases hchecks
  | some e =>
    rw [he, Option.any_some, Bool.and_eq_true] at hchecks
    obtain ⟨hinline, htakes⟩ := hchecks
    obtain ⟨hread, hapart, -⟩ := readExpression?_print he hinline 0
    obtain ⟨e', he', -, hsame⟩ := hread (hapart htakes)
    exact ⟨e, e', rfl, hinline, htakes, he', hsame.mpr htakes⟩

/-- A callee with a property in brackets. -/
def bracketText : String := "new (a[b])()"

/-- A callee that is `new` again. -/
def newNewText : String := "new (new a())()"

/-- Whether an expression is `new`. -/
def Expr.isNew : Expr → Bool
  | new _ _ _ => true
  | _ => false

/-- The text of `new` may be that of a call, or of no expression at all. -/
theorem readExpression?_print_brackets :
    (∃ e e', readExpression? bracketText = some e ∧
      e.every Expr.isInline (fun _ => true) = true ∧ e.isNew = true ∧
      readExpression? ("(" ++ e.print 0 ++ ")") = some e' ∧ e'.isCall = true ∧
      e'.withoutSpans ≠ e.withoutSpans) ∧
    ∃ e, readExpression? newNewText = some e ∧ e.every Expr.isInline (fun _ => true) = true ∧
      e.isNew = true ∧ readExpression? ("(" ++ e.print 0 ++ ")") = none := by
  have hbracket : (readExpression? bracketText).any (fun e => e.every Expr.isInline (fun _ => true) &&
      (e.isNew && (readExpression? ("(" ++ e.print 0 ++ ")")).any Expr.isCall)) = true := by
    decide +kernel
  have hnewNew : (readExpression? newNewText).any (fun e => e.every Expr.isInline (fun _ => true) &&
      (e.isNew && (readExpression? ("(" ++ e.print 0 ++ ")")).isNone)) = true := by
    decide +kernel
  constructor
  · cases he : readExpression? bracketText with
    | none =>
      rw [he] at hbracket
      cases hbracket
    | some e =>
      rw [he, Option.any_some, Bool.and_eq_true, Bool.and_eq_true] at hbracket
      obtain ⟨hinline, hnew, hcall⟩ := hbracket
      cases he' : readExpression? ("(" ++ e.print 0 ++ ")") with
      | none =>
        rw [he'] at hcall
        cases hcall
      | some e' =>
        rw [he', Option.any_some] at hcall
        refine ⟨e, e', rfl, hinline, hnew, he', hcall, fun hsame => ?_⟩
        cases e with
        | new =>
          cases e' with
          | call => cases hsame
          | _ => cases hcall
        | _ => cases hnew
  · cases he : readExpression? newNewText with
    | none =>
      rw [he] at hnewNew
      cases hnewNew
    | some e =>
      rw [he, Option.any_some, Bool.and_eq_true, Bool.and_eq_true] at hnewNew
      obtain ⟨hinline, hnew, hnone⟩ := hnewNew
      exact ⟨e, rfl, hinline, hnew, Option.isNone_iff_eq_none.mp hnone⟩

end MarkupScript
