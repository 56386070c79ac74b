import MarkupScript.Proofs.Parse.Run

/-!
# Expressions and the open elements

Tags are statements, and the only statements inside an expression are those in the body of an arrow
function. A body is read with no element open, and behind it the elements are open again that were
open before, also where reading it failed. So no rule for expressions, parameters, arguments and
bodies changes the open elements, whatever the rules for statements do.
-/

namespace MarkupScript

namespace Parse

variable {α : Type}

/-- The stream that a parser leaves, with a result or with a failure. -/
def streamAfter : EStateM.Result SyntaxError Stream α → Stream
  | .ok _ s => s
  | .error _ s => s

/-- A parser leaves the open elements as they were, whatever its outcome. -/
def KeepsElements (p : Parse α) : Prop := ∀ s, (streamAfter (p s)).elements = s.elements

end Parse

/-- The rules for the parts of an expression keep the open elements. Statements need not. -/
structure Rules.KeepElements (rules : Rules) : Prop where
  expression : Parse.KeepsElements rules.expression
  operand : Parse.KeepsElements rules.operand

namespace Parse.KeepsElements

variable {α β : Type} {p : Parse α} {rules : Rules}

theorem pure {a : α} : KeepsElements (Pure.pure a) := fun _ => rfl

theorem bind {f : α → Parse β} (hp : KeepsElements p) (hf : ∀ a, KeepsElements (f a)) :
    KeepsElements (p >>= f) := by
  intro s
  have hfirst := hp s
  cases h : p s with
  | ok a s₁ =>
    rw [h] at hfirst
    rw [run_bind h]
    exact (hf a s₁).trans hfirst
  | error e s₁ =>
    rw [h] at hfirst
    rw [run_bind_error h]
    exact hfirst

theorem map {f : α → β} (hp : KeepsElements p) : KeepsElements (f <$> p) := by
  rw [map_eq_pure_bind]
  exact bind hp fun _ => pure

/-! ### Single tokens -/

/-- A parser that only looks at the stream. -/
theorem of_look {f : Stream → α} (h : ∀ s, p s = .ok (f s) s) : KeepsElements p := by
  intro s
  rw [h]
  rfl

theorem get : KeepsElements (get : Parse Stream) := of_look run_get

theorem peek : KeepsElements peek := of_look run_peek

theorem peekKind : KeepsElements peekKind := of_look run_peekKind

theorem budget : KeepsElements budget := of_look run_budget

theorem check (k : Kind) : KeepsElements (check k) := of_look (run_check k)

theorem spanFrom (start : Span) : KeepsElements (spanFrom start) := of_look (run_spanFrom start)

theorem fail {cause : SyntaxError.Cause} : KeepsElements (fail cause : Parse α) := fun _ => rfl

theorem failExpecting {what : Expectation} : KeepsElements (failExpecting what : Parse α) :=
  bind peekKind fun _ => fail

theorem advance : KeepsElements advance := by
  rintro ⟨b, ahead, els⟩
  cases ahead <;> rfl

theorem eat (k : Kind) : KeepsElements (eat k) := by
  refine bind (check k) fun b => ?_
  split
  · exact bind advance fun _ => pure
  · exact pure

theorem expectSymbol (mark : Symbol) : KeepsElements (expectSymbol mark) := by
  refine bind (eat _) fun b => ?_
  split
  · exact pure
  · exact failExpecting

theorem identifier : KeepsElements identifier := by
  refine bind peekKind fun k => ?_
  split
  · exact bind advance fun _ => pure
  · exact failExpecting

theorem word {what : Expectation} : KeepsElements (word what) := by
  refine bind peekKind fun k => ?_
  split
  · exact bind advance fun _ => pure
  · exact failExpecting

theorem commaList {close : Symbol} (hp : KeepsElements p) : KeepsElements (commaList close p) := by
  refine bind budget fun n => bind ?_ fun _ => bind (expectSymbol _) fun _ => pure
  induction n with
  | zero => exact fail
  | succ n ih =>
    refine bind (check _) fun b => ?_
    split
    · exact pure
    · refine bind hp fun _ => bind (eat _) fun b => ?_
      split
      · exact bind ih fun _ => pure
      · exact pure

/-! ### Arrow functions -/

/-- Whatever is done with no element open, the elements are open again behind it. -/
theorem withoutElements : KeepsElements (withoutElements p) := by
  intro s
  unfold Parse.withoutElements
  cases p { s with elements := [] } <;> rfl

theorem functionBody : KeepsElements (functionBody rules) := withoutElements

theorem params : KeepsElements params :=
  bind (expectSymbol _) fun _ => commaList identifier

section

variable (h : rules.KeepElements)
include h

theorem arrow : KeepsElements (arrow rules) := by
  refine bind peek fun t => bind (check _) fun b => ?_
  have hbody (xs : List String) : KeepsElements (do
      Parse.expectSymbol .arrow
      let body ←
        if ← Parse.check (.symbol .leftBrace) then ArrowBody.block <$> Parse.functionBody rules
        else ArrowBody.expression <$> rules.expression
      return Expr.arrow xs body (← Parse.spanFrom t.span)) := by
    refine bind (expectSymbol _) fun _ => bind (check _) fun b => ?_
    dsimp only
    split
    · exact bind functionBody.map fun _ => bind (spanFrom _) fun _ => pure
    · exact bind h.expression.map fun _ => bind (spanFrom _) fun _ => pure
  dsimp only
  split
  · exact bind params hbody
  · exact bind identifier fun _ => bind pure hbody

/-! ### Primary expressions -/

theorem arguments : KeepsElements (arguments rules) :=
  bind (expectSymbol _) fun _ => commaList h.expression

theorem array : KeepsElements (array rules) :=
  bind peek fun _ => bind (expectSymbol _) fun _ => bind (commaList h.expression) fun _ =>
    bind (spanFrom _) fun _ => pure

theorem property : KeepsElements (property rules) := by
  refine bind peek fun t => ?_
  split
  · exact failExpecting
  · refine bind advance fun _ => bind (eat _) fun b => ?_
    split
    · exact bind h.expression fun _ => pure
    · split
      · exact pure
      · exact failExpecting

theorem object : KeepsElements (object rules) :=
  bind peek fun _ => bind (expectSymbol _) fun _ => bind (commaList (property h)) fun _ =>
    bind (spanFrom _) fun _ => pure

theorem parenthesised : KeepsElements (parenthesised rules) :=
  bind (expectSymbol _) fun _ => bind h.expression fun _ => bind (expectSymbol _) fun _ => pure

theorem primary : KeepsElements (primary rules) := by
  refine bind peek fun t => ?_
  split
  · exact bind advance fun _ => pure
  · split
    · exact parenthesised h
    · exact array h
    · exact object h
    · exact fail

/-! ### Calls and members -/

omit h in
theorem propertyName : KeepsElements propertyName :=
  bind peek fun _ => bind word fun _ => pure

omit h in
theorem newCallee {start : Span} {n : Nat} {e : Expr} : KeepsElements (newCallee start n e) := by
  induction n generalizing e with
  | zero => exact fail
  | succ n ih =>
    refine bind (eat _) fun b => ?_
    split
    · exact bind propertyName fun _ => bind (spanFrom _) fun _ => ih
    · exact pure

theorem new : KeepsElements (new rules) := by
  refine bind peek fun t => bind advance fun _ => bind budget fun n => bind (primary h) fun e =>
    bind newCallee fun callee => bind (check _) fun b => ?_
  dsimp only
  split
  · exact bind (arguments h) fun _ => bind (spanFrom _) fun _ => pure
  · exact bind pure fun _ => bind (spanFrom _) fun _ => pure

theorem chain {start : Span} {n : Nat} {e : Expr} : KeepsElements (chain rules start n e) := by
  induction n generalizing e with
  | zero => exact fail
  | succ n ih =>
    refine bind peekKind fun k => ?_
    split
    · exact bind advance fun _ => bind propertyName fun _ => bind (spanFrom _) fun _ => ih
    · exact bind advance fun _ => bind propertyName fun _ => bind (spanFrom _) fun _ => ih
    · exact bind advance fun _ => bind h.expression fun _ => bind (expectSymbol _) fun _ =>
        bind (spanFrom _) fun _ => ih
    · exact bind (arguments h) fun _ => bind (spanFrom _) fun _ => ih
    · exact pure

theorem callMember : KeepsElements (callMember rules) := by
  refine bind peek fun t => bind (check _) fun b => ?_
  dsimp only
  split
  · exact bind (new h) fun _ => bind budget fun _ => chain h
  · exact bind (primary h) fun _ => bind budget fun _ => chain h

/-! ### Operators -/

omit h in
theorem checkUpdateTarget {e : Expr} : KeepsElements (checkUpdateTarget e) := by
  unfold Parse.checkUpdateTarget
  split
  · exact pure
  · exact fail

theorem postfixed : KeepsElements (postfixed rules) := by
  refine bind peek fun _ => bind (callMember h) fun e => bind peek fun t => ?_
  split
  · exact pure
  · split
    · exact pure
    · exact bind checkUpdateTarget fun _ => bind advance fun _ => bind (spanFrom _) fun _ => pure

theorem operand : KeepsElements (operand rules) := by
  refine bind peek fun _ => bind peekKind fun k => ?_
  split
  · exact bind advance fun _ => bind h.operand fun _ => bind (spanFrom _) fun _ => pure
  · exact bind advance fun _ => bind h.operand fun _ => bind checkUpdateTarget fun _ =>
      bind (spanFrom _) fun _ => pure
  · exact postfixed h

omit h in
theorem operators {right : Nat → Parse Expr} (hright : ∀ least, KeepsElements (right least))
    {start : Span} {least n : Nat} {e : Expr} :
    KeepsElements (operators right start least n e) := by
  induction n generalizing e with
  | zero => exact fail
  | succ n ih =>
    refine bind peekKind fun k => ?_
    split
    · exact pure
    · split
      · exact pure
      · exact bind advance fun _ => bind (hright _) fun _ => bind (spanFrom _) fun _ => ih

theorem climb {levels least : Nat} : KeepsElements (climb rules levels least) := by
  induction levels generalizing least with
  | zero => exact operand h
  | succ levels ih =>
    exact bind peek fun _ => bind (operand h) fun _ => bind budget fun _ => operators fun _ => ih

theorem conditional : KeepsElements (conditional rules) := by
  refine bind peek fun _ => bind (climb h) fun test => bind (eat _) fun b => ?_
  split
  · exact bind h.expression fun _ => bind (expectSymbol _) fun _ => bind h.expression fun _ =>
      bind (spanFrom _) fun _ => pure
  · exact pure

theorem expression : KeepsElements (expression rules) := by
  refine bind get fun s => ?_
  split
  · exact arrow h
  · refine bind peek fun _ => bind (conditional h) fun target => bind peekKind fun k => ?_
    split
    · exact pure
    · split
      · exact bind advance fun _ => bind h.expression fun _ => bind (spanFrom _) fun _ => pure
      · exact bind fail fun _ => bind advance fun _ => bind h.expression fun _ =>
          bind (spanFrom _) fun _ => pure

end

end Parse.KeepsElements

/-! ### Tying the rules together -/

theorem Rules.keepElements_nested (n : Nat) : (Rules.nested n).KeepElements := by
  induction n with
  | zero => exact ⟨.fail, .fail⟩
  | succ n ih => exact ⟨.expression ih, .operand ih⟩

/-- **Expressions keep the open elements.** On every stream, whatever tokens are ahead in it and
whatever elements are open, the parsers of expressions, parameters, arguments and bodies of functions
leave the same elements open, also when they fail. This is so at every depth, so that no failure
inside them, however deep, shows in the open elements either. -/
theorem expressions_keep_elements :
    Parse.KeepsElements Parse.anyExpression ∧ Parse.KeepsElements Parse.params ∧
    Parse.KeepsElements (fun s => Parse.arguments (Parse.rulesFor s) s) ∧
    Parse.KeepsElements (fun s => Parse.functionBody (Parse.rulesFor s) s) ∧
    ∀ n, Parse.KeepsElements (Rules.nested n).expression ∧
      Parse.KeepsElements (Parse.arguments (.nested n)) ∧
      Parse.KeepsElements (Parse.functionBody (.nested n)) := by
  have hnested := Rules.keepElements_nested
  refine ⟨fun s => ?_, .params, fun s => ?_, fun s => ?_, fun n => ⟨?_, ?_, ?_⟩⟩
  · exact (hnested (s.ahead.length + 1)).expression s
  · exact Parse.KeepsElements.arguments (hnested (s.ahead.length + 1)) s
  · exact Parse.KeepsElements.functionBody s
  · exact (hnested n).expression
  · exact .arguments (hnested n)
  · exact .functionBody

end MarkupScript
