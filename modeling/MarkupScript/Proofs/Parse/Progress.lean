import MarkupScript.Proofs.Parse.Advances
import MarkupScript.Proofs.Parse.Delimiters
import MarkupScript.Proofs.Token.Lossless

/-!
# Progress of the parsers

Each rule of the grammar goes forward if the rules for its parts do, and takes a token before it
hands over to them. So with a depth of more than the number of tokens ahead, the rules never run out
of it, and what is said of parsers here holds of every stream, however it was cut and whatever
elements are open in it.
-/

namespace MarkupScript

/-- The rules for the parts of a construct can be relied on for fewer than `n` tokens. -/
structure Rules.Advance (rules : Rules) (tokens : List Token) (n : Nat) : Prop where
  expression : Parse.Advances true tokens (fun _ => True) n rules.expression
  operand : Parse.Advances true tokens (fun _ => True) n rules.operand
  statement : Parse.Advances true tokens (fun _ => True) n rules.statement

namespace Parse.Advances

variable {tokens : List Token} {P : Kind → Prop} {n : Nat} {rules : Rules}

/-! ### Arrow functions -/

theorem params : Advances true tokens P n params :=
  andThen expectSymbol fun _ => (commaList identifier).loose

section

variable (h : rules.Advance tokens n)
include h

theorem block : Advances true tokens P (n + 1) (block rules) :=
  enter expectSymbol fun _ => bind (itemsWhile h.statement) fun _ => bind expectSymbol fun _ => pure

theorem functionBody : Advances true tokens P (n + 1) (functionBody rules) :=
  withoutElements (block h)

theorem arrow : Advances true tokens P (n + 1) (arrow rules) := by
  refine peek fun t _ _ => check fun k _ => ?_
  have hbody (xs : List String) : Advances false tokens (fun _ => True) n (do
      Parse.expectSymbol .arrow
      let body ←
        if ← Parse.check (.symbol .leftBrace) then ArrowBody.block <$> Parse.functionBody rules
        else ArrowBody.expression <$> rules.expression
      return Expr.arrow xs body (← Parse.spanFrom t.span)) := by
    refine bind expectSymbol fun _ => check fun k _ => ?_
    dsimp only
    split
    · exact bind (functionBody h).inner.map fun _ => spanFrom fun _ => pure
    · exact bind h.expression.anywhere.map fun _ => spanFrom fun _ => pure
  dsimp only
  split
  · exact enter params hbody
  · exact enter identifier fun _ => bind pure hbody

/-! ### Primary expressions -/

theorem arguments : Advances true tokens P (n + 1) (arguments rules) :=
  enter expectSymbol fun _ => (commaList h.expression).loose

theorem array : Advances true tokens P (n + 1) (array rules) :=
  peek fun _ _ _ => enter expectSymbol fun _ => bind (commaList h.expression) fun _ =>
    spanFrom fun _ => pure

theorem property : Advances true tokens P (n + 1) (property rules) := by
  refine peek fun t _ _ => ?_
  split
  · exact failExpecting
  · next hkey =>
    refine enter (advance (Kind.isEnd_of_some rfl hkey)) fun _ => bind (eat rfl) fun b => ?_
    split
    · exact bind h.expression fun _ => pure
    · split
      · exact pure
      · exact failExpecting

theorem object : Advances true tokens P (n + 1) (object rules) :=
  peek fun _ _ _ => enter expectSymbol fun _ => bind (commaList (property h).inner) fun _ =>
    spanFrom fun _ => pure

theorem parenthesised : Advances true tokens P (n + 1) (parenthesised rules) :=
  enter expectSymbol fun _ => bind h.expression fun _ => bind expectSymbol fun _ => pure

theorem primary : Advances true tokens P (n + 1) (primary rules) := by
  refine peek fun t _ _ => ?_
  split
  · next he =>
    have ht : t.kind.isEnd = false :=
      Kind.isEnd_of_some (f := fun k => atom? ⟨k, t.span, t.newlineBefore⟩) rfl he
    exact andThen (advance ht) fun _ => pure
  · split
    · exact parenthesised h
    · exact array h
    · exact object h
    · exact fail (by simp)

/-! ### Calls and members -/

omit h in
theorem propertyName : Advances true tokens P n propertyName :=
  peek fun _ _ _ => andThen word fun _ => pure

omit h in
theorem newCallee {start : Span} {e : Expr} {fuel k : Nat} (hfuel : k ≤ fuel) :
    Advances false tokens P k (newCallee start fuel e) := by
  induction fuel generalizing e k P with
  | zero => exact zero.mono hfuel
  | succ fuel ih =>
    cases k with
    | zero => exact zero
    | succ k =>
      refine bind (eat rfl) fun b => ?_
      split
      · exact (enter propertyName fun _ => spanFrom fun _ =>
          ih (Nat.le_of_succ_le_succ hfuel)).loose
      · exact pure

/-- The word `new` was seen. -/
theorem new : Advances true tokens (· = .keyword .new_) (n + 1) (new rules) := by
  refine peek fun t _ ht => ?_
  rw [ht]
  refine enter (advance rfl) fun _ => budget fun k hk => bind ((primary h).inner.mono hk) fun e =>
    bind (newCallee (Nat.le_refl k)) fun callee => check fun _ _ => ?_
  dsimp only
  split
  · exact bind ((arguments h).inner.mono hk) fun _ => spanFrom fun _ => pure
  · exact bind pure fun _ => spanFrom fun _ => pure

/-- Whatever an expression goes on with takes a token. -/
theorem chain {start : Span} {e : Expr} {fuel k : Nat} (hfuel : k ≤ fuel) (hk : k ≤ n) :
    Advances false tokens P k (chain rules start fuel e) := by
  induction fuel generalizing e k P with
  | zero => exact zero.mono hfuel
  | succ fuel ih =>
    cases k with
    | zero => exact zero
    | succ k =>
      have hk' : k ≤ n := Nat.le_of_succ_le hk
      have hgo {e : Expr} :
          Advances false tokens (fun _ => True) k (Parse.chain rules start fuel e) :=
        ih (Nat.le_of_succ_le_succ hfuel) hk'
      refine peekKind fun _ _ => ?_
      split
      · exact (enter (advance rfl) fun _ => bind propertyName fun _ => spanFrom fun _ => hgo).loose
      · exact (enter (advance rfl) fun _ => bind propertyName fun _ => spanFrom fun _ => hgo).loose
      · exact (enter (advance rfl) fun _ => bind (h.expression.mono hk') fun _ =>
          bind expectSymbol fun _ => spanFrom fun _ => hgo).loose
      · exact (enter ((arguments h).inner.mono hk) fun _ => spanFrom fun _ => hgo).loose
      · exact pure

theorem callMember : Advances true tokens P (n + 1) (callMember rules) := by
  refine peek fun t _ _ => check fun k _ => ?_
  have hchain (e : Expr) : Advances false tokens (fun _ => True) n
      (Parse.budget >>= fun fuel => Parse.chain rules t.span fuel e) :=
    budget fun k hk => chain h (Nat.le_refl k) hk
  dsimp only
  split
  · next hnew =>
    obtain rfl : k = .keyword .new_ := by simpa using hnew
    exact enter (new h) hchain
  · exact enter (primary h) hchain

/-! ### Operators -/

omit h in
/-- A check of the target takes nothing, so that the next token stays what it was. -/
theorem checkUpdateTarget {takes : Bool} {e : Expr} {f : Unit → Parse Expr}
    (hf : Advances takes tokens P n (f ())) :
    Advances takes tokens P n (Parse.checkUpdateTarget e >>= f) := by
  unfold Parse.checkUpdateTarget
  split
  · exact hf
  · exact of_never (fail (by simp)) fun _ _ _ => fail_ne_ok.mp

theorem postfixed : Advances true tokens P (n + 1) (postfixed rules) := by
  refine peek fun _ _ _ => enter (callMember h) fun e => peek fun t _ _ => ?_
  split
  · exact pure
  · split
    · exact pure
    · next hop =>
      exact checkUpdateTarget (bind (advance (Kind.isEnd_of_some rfl hop)) fun _ =>
        spanFrom fun _ => pure)

theorem operand : Advances true tokens P (n + 1) (operand rules) := by
  refine peek fun _ _ _ => peekKind fun k _ => ?_
  split
  · next hop =>
    exact enter (advance (Kind.isEnd_of_some rfl hop)) fun _ => bind h.operand fun _ =>
      spanFrom fun _ => pure
  · next hop =>
    exact enter (advance (Kind.isEnd_of_some rfl hop)) fun _ => bind h.operand fun _ =>
      checkUpdateTarget (spanFrom fun _ => pure)
  · exact postfixed h

omit h in
theorem operators {right : Nat → Parse Expr}
    (hright : ∀ least, Advances true tokens (fun _ => True) n (right least)) {start : Span}
    {least : Nat} {e : Expr} {fuel k : Nat} (hfuel : k ≤ fuel) (hk : k ≤ n) :
    Advances false tokens P k (operators right start least fuel e) := by
  induction fuel generalizing e k P with
  | zero => exact zero.mono hfuel
  | succ fuel ih =>
    cases k with
    | zero => exact zero
    | succ k =>
      have hk' : k ≤ n := Nat.le_of_succ_le hk
      refine peekKind fun _ _ => ?_
      split
      · exact pure
      · next hop =>
        split
        · exact pure
        · exact (enter (advance (Kind.isEnd_of_some rfl hop)) fun _ =>
            bind ((hright _).mono hk') fun _ => spanFrom fun _ =>
              ih (Nat.le_of_succ_le_succ hfuel) hk').loose

theorem climb {levels least : Nat} : Advances true tokens P (n + 1) (climb rules levels least) := by
  induction levels generalizing least P with
  | zero => exact operand h
  | succ levels ih =>
    exact peek fun _ _ _ => enter (operand h) fun _ => budget fun k hk =>
      operators (fun _ => ih.inner) (Nat.le_refl k) hk

theorem conditional : Advances true tokens P (n + 1) (conditional rules) := by
  refine peek fun _ _ _ => enter (climb h) fun test => bind (eat rfl) fun b => ?_
  split
  · exact bind h.expression fun _ => bind expectSymbol fun _ => bind h.expression fun _ =>
      spanFrom fun _ => pure
  · exact pure

theorem expression : Advances true tokens P (n + 1) (expression rules) := by
  refine get fun s => ?_
  split
  · exact arrow h
  · refine peek fun _ _ _ => enter (conditional h) fun target => peekKind fun k _ => ?_
    split
    · exact pure
    · next hop =>
      split
      · exact bind (advance (Kind.isEnd_of_some rfl hop)) fun _ =>
          bind h.expression fun _ => spanFrom fun _ => pure
      · exact of_never (fail (by simp)) fun _ _ _ => fail_ne_ok.mp

/-! ### Markup -/

theorem tagAttribute : Advances true tokens P (n + 1) (tagAttribute rules) := by
  refine enter name fun x => bind (eat rfl) fun b => ?_
  split
  · refine peekKind fun k _ => ?_
    split
    · exact bind (advance rfl) fun _ => pure
    · exact bind (advance rfl) fun _ => bind h.expression fun _ => bind expectSymbol fun _ => pure
    · exact fail (by simp)
  · exact pure

theorem startTag {start : Span} {x : String} :
    Advances false tokens P n (startTag rules start x) := by
  refine bind (itemsWhile (tagAttribute h).inner) fun _ => bind (eat rfl) fun b => ?_
  split
  · exact bind expectSymbol fun _ => spanFrom fun _ => pure
  · exact bind expectSymbol fun _ => bind (modify fun _ => rfl) fun _ => spanFrom fun _ => pure

omit h in
/-- The tag started with a token that was shown. -/
theorem endTag {start : Span} (hstart : Shown tokens start) :
    Advances false tokens P n (endTag start) := by
  refine bind name fun x => bind expectSymbol fun _ => get fun s => ?_
  split
  · exact failAt hstart (by simp)
  · exact bind (modify fun _ => rfl) fun _ => spanFrom fun _ => pure

theorem tag : Advances true tokens P (n + 1) (tag rules) := by
  refine peek fun _ hstart _ => enter expectSymbol fun _ => peekKind fun k _ => ?_
  split
  · exact bind (advance rfl) fun _ => startTag h
  · exact bind (advance rfl) fun _ => endTag hstart
  · exact failExpecting

theorem decorator : Advances true tokens P (n + 1) (decorator rules) := by
  refine peek fun _ hstart _ => enter expectSymbol fun _ => bind h.expression fun e => ?_
  split
  · exact failAt hstart (by simp)
  · exact bind (eat rfl) fun _ => spanFrom fun _ => pure

/-! ### Declarations -/

theorem declarator : Advances true tokens P (n + 1) (declarator rules) := by
  refine enter identifier fun x => bind (eat rfl) fun b => ?_
  split
  · exact bind (expression h).inner fun _ => pure
  · exact pure

theorem declaration {kind : VariableKind} {seen : Kind} (hseen : seen.isEnd = false) :
    Advances true tokens (· = seen) (n + 1) (declaration rules kind) :=
  enter (advance hseen) fun _ => bind (commaItems (declarator h).inner) fun _ => pure

theorem declarationStatement {kind : VariableKind} {seen : Kind} (hseen : seen.isEnd = false) :
    Advances true tokens (· = seen) (n + 1) (declarationStatement rules kind) :=
  andThen (declaration h hseen) fun _ => bind semicolon fun _ => pure

theorem function : Advances true tokens P (n + 1) (function rules) :=
  enter (expect rfl) fun _ => bind identifier fun _ => bind params fun _ =>
    bind (functionBody h).inner fun _ => pure

omit h in
theorem importSpecifier : Advances true tokens P n importSpecifier := by
  refine andThen word fun x => bind (eat rfl) fun b => ?_
  split
  · exact bind identifier fun _ => pure
  · exact pure

omit h in
theorem importSpecifiers : Advances true tokens P n importSpecifiers :=
  andThen expectSymbol fun _ => (commaList importSpecifier).loose

omit h in
theorem importSource {defaultName : Option String} {xs : List ImportSpecifier} :
    Advances false tokens P n (importSource defaultName xs) := by
  refine bind (eat rfl) fun b => ?_
  split
  · refine peekKind fun k _ => ?_
    split
    · exact bind (advance rfl) fun _ => bind semicolon fun _ => pure
    · exact failExpecting
  · exact of_never failExpecting fun _ _ _ => failExpecting_ne_ok.mp

omit h in
theorem import_ {seen : Kind} (hseen : seen.isEnd = false) :
    Advances true tokens (· = seen) n import_ := by
  refine andThen (advance hseen) fun _ => peekKind fun k _ => ?_
  split
  · exact bind (advance rfl) fun _ => bind semicolon fun _ => pure
  · refine bind (advance rfl) fun _ => bind (eat rfl) fun b => ?_
    dsimp only
    split
    · exact bind importSpecifiers fun _ => importSource
    · exact bind pure fun _ => importSource
  · exact bind importSpecifiers fun _ => importSource

theorem export_ {seen : Kind} (hseen : seen.isEnd = false) :
    Advances true tokens (· = seen) (n + 1) (export_ rules) := by
  refine andThen (advance hseen) fun _ => peekKind fun k _ => ?_
  split
  · exact bind (function h) fun _ => pure
  · split
    · next hkind =>
      exact bind (declarationStatement h (Kind.isEnd_of_some rfl hkind)) fun _ => pure
    · exact failExpecting

/-! ### Control flow -/

theorem return_ {seen : Kind} (hseen : seen.isEnd = false) :
    Advances true tokens (· = seen) (n + 1) (return_ rules) := by
  refine andThen (advance hseen) fun _ => peek fun t _ _ => ?_
  split
  · exact bind semicolon fun _ => pure
  · exact bind (expression h) fun _ => bind semicolon fun _ => pure

theorem if_ {seen : Kind} (hseen : seen.isEnd = false) :
    Advances true tokens (· = seen) (n + 1) (if_ rules) := by
  refine enter (advance hseen) fun _ => bind (parenthesised h).inner fun _ =>
    bind h.statement fun _ => bind (eat rfl) fun b => ?_
  split
  · exact bind h.statement fun _ => pure
  · exact pure

theorem while_ {seen : Kind} (hseen : seen.isEnd = false) :
    Advances true tokens (· = seen) (n + 1) (while_ rules) :=
  enter (advance hseen) fun _ => bind (parenthesised h).inner fun _ =>
    bind h.statement fun _ => pure

/-- A loop may start with nothing. -/
theorem forInit : Advances false tokens P (n + 1) (forInit rules) := by
  refine peekKind fun k _ => ?_
  split
  · exact pure
  · split
    · next hkind =>
      exact bind (declaration h (Kind.isEnd_of_some rfl hkind)) fun _ => pure
    · exact bind (expression h) fun _ => pure

theorem expressionBefore {stop : Symbol} :
    Advances false tokens P (n + 1) (expressionBefore rules stop) := by
  refine check fun k _ => ?_
  split
  · exact pure
  · exact bind (expression h) fun _ => pure

theorem for_ {seen : Kind} (hseen : seen.isEnd = false) :
    Advances true tokens (· = seen) (n + 1) (for_ rules) :=
  enter (advance hseen) fun _ => bind expectSymbol fun _ => bind (forInit h).inner fun _ =>
    bind expectSymbol fun _ => bind (expressionBefore h).inner fun _ =>
    bind expectSymbol fun _ => bind (expressionBefore h).inner fun _ =>
    bind expectSymbol fun _ => bind h.statement fun _ => pure

omit h in
theorem wordStatement {seen : Kind} (hseen : seen.isEnd = false) {st : Stmt} :
    Advances true tokens (· = seen) n (wordStatement st) :=
  andThen (advance hseen) fun _ => bind semicolon fun _ => pure

theorem expressionStatement : Advances true tokens P (n + 1) (expressionStatement rules) :=
  andThen (expression h) fun _ => bind semicolon fun _ => pure

theorem statement : Advances true tokens P (n + 1) (statement rules) := by
  refine peekKind fun k _ => ?_
  split
  · exact tag h
  · exact decorator h
  · exact andThen (block h) fun _ => pure
  · exact andThen (advance rfl) fun _ => pure
  · exact declarationStatement h rfl
  · exact declarationStatement h rfl
  · exact declarationStatement h rfl
  · exact function h
  · exact return_ h rfl
  · exact if_ h rfl
  · exact while_ h rfl
  · exact for_ h rfl
  · exact wordStatement rfl
  · exact wordStatement rfl
  · exact import_ rfl
  · exact export_ h rfl
  · exact expressionStatement h

end

end Parse.Advances

/-! ### Tying the rules together -/

/-- At depth `n` the rules can be relied on for fewer than `n` tokens. -/
theorem Rules.advance_nested (tokens : List Token) (n : Nat) :
    (Rules.nested n).Advance tokens n := by
  induction n with
  | zero => exact ⟨.zero, .zero, .zero⟩
  | succ n ih => exact ⟨.expression ih, .operand ih, .statement ih⟩

namespace Parse

variable {tokens : List Token} {P : Kind → Prop} {n : Nat}

theorem anyExpression_advances : Advances true tokens P n anyExpression :=
  fun s hs _ _ => (Rules.advance_nested tokens (s.ahead.length + 1)).expression hs
    (Nat.lt_succ_self _) trivial

theorem anyStatement_advances : Advances true tokens P n anyStatement :=
  fun s hs _ _ => (Rules.advance_nested tokens (s.ahead.length + 1)).statement hs
    (Nat.lt_succ_self _) trivial

theorem program_advances : Advances false tokens P n program :=
  .bind (.itemsWhile anyStatement_advances) fun _ => .pure

/-- A parser ends on every stream, where it began or further on, and no further than the end of the
input. -/
structure Forward (p : Parse α) : Prop where
  onSuccess : ∀ s a s', p s = .ok a s' → Leaves s.ahead s'.ahead
  onFailure : ∀ s e s', p s = .error e s' → Leaves s.ahead s'.ahead
  deepEnough : ∀ s e s', p s = .error e s' → e.cause ≠ .nesting

/-- What is known of a stream holds with its own tokens for all tokens. -/
theorem Advances.outcome {α : Type} {p : Parse α} {takes : Bool}
    (h : ∀ tokens n, Advances takes tokens (fun _ => True) n p) (s : Stream) :
    Outcome takes s.ahead s.ahead (p s) :=
  h s.ahead _ (.refl s.ahead) (Nat.lt_succ_self _) trivial

theorem Advances.forward {α : Type} {p : Parse α} {takes : Bool}
    (h : ∀ tokens n, Advances takes tokens (fun _ => True) n p) : Forward p := by
  refine ⟨fun s a s' hp => ?_, fun s e s' hp => ?_, fun s e s' hp => ?_⟩ <;>
    have hout := outcome h s <;> rw [hp] at hout
  · exact hout.1
  · exact hout.1
  · exact hout.2.1

theorem Advances.length_lt {α : Type} {p : Parse α} {s s' : Stream} {a : α}
    (h : ∀ tokens n, Advances true tokens (fun _ => True) n p) (hp : p s = .ok a s') :
    s'.ahead.length < s.ahead.length := by
  have hout := outcome h s
  rw [hp] at hout
  exact hout.2 rfl

end Parse

/-- A stream that ends with the end of the input shows tokens of its own only. -/
theorem Shown.exists_token {front : List Token} {last : Token} {span : Span}
    (h : Shown (front ++ [last]) span) (hlast : last.kind = .endOfInput) :
    ∃ t ∈ front ++ [last], span = t.span := by
  obtain ⟨rest, ⟨taken, htokens, htaken⟩, rfl⟩ := h
  rw [htokens]
  cases rest with
  | nil =>
    rw [List.append_nil] at htokens
    exact absurd hlast (htaken last (by simp [← htokens]))
  | cons t rest => exact ⟨t, by simp, rfl⟩

/-- Where a source fails to be a program. -/
theorem exists_token_of_parse_error {source : String} {e : SyntaxError}
    (h : parse source = .error (.grammar e)) :
    ∃ tokens, tokenize source = .ok tokens ∧
      ∃ t ∈ tokens, e.line = t.span.line ∧ e.column = t.span.column := by
  unfold parse at h
  cases htokens : tokenize source with
  | error e' =>
    rw [htokens] at h
    cases h
  | ok tokens =>
    rw [htokens] at h
    have hout := Parse.Advances.outcome (fun _ _ => Parse.program_advances) (.ofTokens tokens)
    cases hp : Parse.program (.ofTokens tokens) with
    | ok p s' =>
      simp only [hp] at h
      cases h
    | error e' s' =>
      simp only [hp] at h
      cases h
      rw [hp] at hout
      obtain ⟨-, -, span, hspan, hline, hcolumn⟩ := hout
      obtain ⟨front, last, rfl, hlast, -⟩ := (lexed_of_tokenize htokens).ends
      obtain ⟨t, ht, rfl⟩ := hspan.exists_token hlast
      exact ⟨_, rfl, t, ht, hline, hcolumn⟩

/-- **Parsers go forward.** Whatever tokens are ahead in a stream, and whatever elements are open in
it, the parsers of statements, of expressions and of programs come to an end: the depth that they
are given is never used up. They leave the stream where it was or further on, and do not go past the
end of the input, also when they fail. A statement and an expression take at least one token, so
that the statements of a program come to an end as well. The error in a source that is no program is
at one of its tokens. -/
theorem parsers_go_forward :
    (Parse.Forward Parse.anyStatement ∧ Parse.Forward Parse.anyExpression ∧
      Parse.Forward Parse.program) ∧
    (∀ s x s', Parse.anyStatement s = .ok x s' → s'.ahead.length < s.ahead.length) ∧
    (∀ s x s', Parse.anyExpression s = .ok x s' → s'.ahead.length < s.ahead.length) ∧
    (∀ s p s', Parse.program s = .ok p s' → s'.kind = .endOfInput) ∧
    ∀ source e, parse source = .error (.grammar e) → ∃ tokens, tokenize source = .ok tokens ∧
      ∃ t ∈ tokens, e.line = t.span.line ∧ e.column = t.span.column := by
  refine ⟨⟨?_, ?_, ?_⟩, fun s x s' h => ?_, fun s x s' h => ?_, fun s p s' h => ?_,
    fun source e h => ?_⟩
  · exact Parse.Advances.forward fun _ _ => Parse.anyStatement_advances
  · exact Parse.Advances.forward fun _ _ => Parse.anyExpression_advances
  · exact Parse.Advances.forward fun _ _ => Parse.program_advances
  · exact Parse.Advances.length_lt (fun _ _ => Parse.anyStatement_advances) h
  · exact Parse.Advances.length_lt (fun _ _ => Parse.anyExpression_advances) h
  · obtain ⟨body, s₁, hbody, hp⟩ := Parse.bind_eq_ok.mp h
    obtain ⟨-, rfl⟩ := Parse.pure_eq_ok.mp hp
    simpa using Parse.itemsWhile_stops hbody
  · exact exists_token_of_parse_error h

/-- A statement and the start of another one, cut off before its end. -/
def cutTokens : List Token :=
  [⟨.identifier "a", ⟨0, 1, 1, 1⟩, false⟩, ⟨.symbol .semicolon, ⟨1, 2, 1, 2⟩, false⟩,
    ⟨.symbol .leftParen, ⟨3, 4, 1, 4⟩, false⟩]

theorem parsers_go_forward_cutTokens :
    (∃ x s', Parse.anyStatement ⟨none, cutTokens, ["p"]⟩ = .ok x s' ∧ s'.ahead.length < 3) ∧
    (∃ e s', Parse.program ⟨none, cutTokens, ["p"]⟩ = .error e s' ∧
      Leaves cutTokens s'.ahead ∧ e.cause ≠ .nesting) ∧
    ∃ e tokens, parse "a b" = .error (.grammar e) ∧ tokenize "a b" = .ok tokens ∧
      ∃ t ∈ tokens, e.line = t.span.line ∧ e.column = t.span.column := by
  obtain ⟨⟨-, -, hprogram⟩, hstatement, -, -, hsource⟩ := parsers_go_forward
  refine ⟨⟨_, _, rfl, hstatement ⟨none, cutTokens, ["p"]⟩ _ _ rfl⟩, ⟨_, _, rfl, ?_, ?_⟩, ?_⟩
  · exact hprogram.onFailure ⟨none, cutTokens, ["p"]⟩ _ _ rfl
  · exact hprogram.deepEnough ⟨none, cutTokens, ["p"]⟩ _ _ rfl
  · obtain ⟨e, he⟩ : ∃ e, parse "a b" = .error (.grammar e) := ⟨_, rfl⟩
    obtain ⟨tokens, htokens, ht⟩ := hsource "a b" e he
    exact ⟨e, tokens, he, htokens, ht⟩

end MarkupScript
