import MarkupScript.Proofs.Parse.Run
import MarkupScript.Proofs.Print.Lexemes
import MarkupScript.Proofs.Tree.Spans

/-!
# What a parser reads

`Reads p ls stop view value` says that the parser `p` takes exactly the lexemes `ls` from the front
of a stream, wherever they stand, and that `view` of its result is `value`. What follows must let
it stop: a longer expression would otherwise be read.

Which tokens go on with an expression depends on its level. `joinLevel` gives the level of the
expression that a token makes with what stands before it, so that an expression in a place for a
level ends before any token that joins below that level.
-/

namespace MarkupScript

/-! ### Lexemes in front of a stream -/

theorem shows_append {ls ms : List Lexeme} {ahead rest : List Token} :
    Shows (ls ++ ms) ahead rest ↔ ∃ middle, Shows ls ahead middle ∧ Shows ms middle rest := by
  induction ls generalizing ahead with
  | nil => simp [Shows]
  | cons l ls ih =>
    simp only [List.cons_append, Shows, ih]
    constructor
    · rintro ⟨t, ahead', rfl, hl, middle, h₁, h₂⟩
      exact ⟨middle, ⟨t, ahead', rfl, hl, h₁⟩, h₂⟩
    · rintro ⟨middle, ⟨t, ahead', rfl, hl, h₁⟩, h₂⟩
      exact ⟨t, ahead', rfl, hl, middle, h₁, h₂⟩

theorem shows_length {ls : List Lexeme} {ahead rest : List Token} (h : Shows ls ahead rest) :
    ahead.length = ls.length + rest.length := by
  induction ls generalizing ahead with
  | nil => simp_all [Shows]
  | cons l ls ih =>
    obtain ⟨t, ahead', rfl, -, h⟩ := h
    simp [ih h]
    omega

theorem map_kind_of_shows {ls : List Lexeme} {ahead rest : List Token} (h : Shows ls ahead rest) :
    ahead.map (·.kind) = ls.map (·.kind) ++ rest.map (·.kind) := by
  induction ls generalizing ahead with
  | nil => exact congrArg _ h
  | cons l ls ih =>
    obtain ⟨t, ahead', rfl, ⟨hkind, -⟩, h⟩ := h
    simp [hkind, ih h]

/-- The next token is the first lexeme. -/
theorem Shows.nextKind {l : Lexeme} {ls : List Lexeme} {ahead rest : List Token}
    (h : Shows (l :: ls) ahead rest) : nextKind ahead = l.kind := by
  obtain ⟨t, ahead', rfl, hl, -⟩ := h
  exact hl.1

/-- Without the demand on its line, the first lexeme is shown as well. -/
theorem Shows.of_onSameLine {ls : List Lexeme} {ahead rest : List Token}
    (h : Shows (onSameLine ls) ahead rest) : Shows ls ahead rest := by
  cases ls with
  | nil => exact h
  | cons l ls =>
    obtain ⟨t, ahead', rfl, ⟨hk, hsame, hnew⟩, h⟩ := h
    exact ⟨t, ahead', rfl, ⟨hk, fun _ => hsame rfl, hnew⟩, h⟩

theorem Shows.of_onNewLine {ls : List Lexeme} {ahead rest : List Token}
    (h : Shows (onNewLine ls) ahead rest) : Shows ls ahead rest := by
  cases ls with
  | nil => exact h
  | cons l ls =>
    obtain ⟨t, ahead', rfl, ⟨hk, hsame, hnew⟩, h⟩ := h
    exact ⟨t, ahead', rfl, ⟨hk, hsame, fun _ => hnew rfl⟩, h⟩

/-! ### Tokens that go on with an expression -/

/-- The level of the expression that a token makes with the operand before it; zero if it ends the
expression. -/
def Kind.joinLevel : Kind → Nat
  | .symbol s => match s with
    | .dot | .optionalChain | .leftBracket | .leftParen => Level.call
    | .plusPlus | .minusMinus => Level.afterOperand
    | .question => Level.conditional
    | .assign | .plusAssign | .minusAssign | .starAssign | .slashAssign | .arrow =>
      Level.assignment
    | s => match BinaryOp.ofKind? (.symbol s) with
      | some op => Level.binary op
      | none => 0
  | _ => 0

theorem BinaryOp.ofKind?_symbol (op : BinaryOp) : ofKind? (.symbol op.symbol) = some op := by
  cases op <;> rfl

theorem BinaryOp.joinLevel_symbol (op : BinaryOp) :
    (Kind.symbol op.symbol).joinLevel = Level.binary op := by
  cases op <;> rfl

theorem BinaryOp.joinLevel_of_ofKind? {k : Kind} {op : BinaryOp} (h : ofKind? k = some op) :
    k.joinLevel = Level.binary op := by
  have hk : k = .symbol op.symbol := by
    cases k with
    | symbol s => cases s <;> cases h <;> rfl
    | _ => cases h
  rw [hk, joinLevel_symbol]

theorem BinaryOp.precedence_bounds (op : BinaryOp) : 1 ≤ op.precedence ∧ op.precedence ≤ 7 := by
  cases op <;> decide

theorem AssignOp.joinLevel_of_ofKind? {k : Kind} {op : AssignOp} (h : ofKind? k = some op) :
    k.joinLevel = Level.assignment := by
  cases k with
  | symbol s => cases s <;> cases h <;> rfl
  | _ => cases h

theorem UpdateOp.joinLevel_of_ofKind? {k : Kind} {op : UpdateOp} (h : ofKind? k = some op) :
    k.joinLevel = Level.afterOperand := by
  cases k with
  | symbol s => cases s <;> cases h <;> rfl
  | _ => cases h

namespace Parse

/-! ### Reading -/

/-- The parser takes exactly these lexemes, if what follows lets it stop, and the result is seen as
`value`. -/
def Reads {α β : Type} (p : Parse α) (ls : List Lexeme) (stop : Kind → Prop) (view : α → β)
    (value : β) : Prop :=
  ∀ b els ahead rest, Shows ls ahead rest → stop (nextKind rest) →
    ∃ a b', p ⟨b, ahead, els⟩ = .ok a ⟨b', rest, els⟩ ∧ view a = value

/-- The parser reads the lexemes as an expression, up to spans, in a place for a level. -/
def ReadsAt (p : Parse Expr) (level : Nat) (ls : List Lexeme) (e : Expr) : Prop :=
  Reads p ls (·.joinLevel < level) Expr.withoutSpans e.withoutSpans

variable {rules : Rules}

/-! ### Calls and members -/

/-- Members and calls end before a token that joins more loosely. -/
theorem run_chain_stop {start : Span} {n : Nat} {e : Expr} {s : Stream} (hn : 0 < n)
    (hs : s.kind.joinLevel < Level.call) : chain rules start n e s = .ok e s := by
  cases n with
  | zero => omega
  | succ n =>
    rw [chain, run_bind (run_peekKind _)]
    generalize s.kind = k at hs
    cases k with
    | symbol mark => cases mark <;> first | rfl | exact absurd hs (by decide)
    | _ => rfl

theorem run_propertyName {b : Option Token} {t : Token} {ahead : List Token} {els : List String}
    {x : String} (h : t.kind.word? = some x) :
    propertyName ⟨b, t :: ahead, els⟩ = .ok (.identifier x t.span) ⟨some t, ahead, els⟩ := by
  rw [propertyName, run_bind (run_peek _), run_bind (run_word h)]
  rfl

theorem run_chain_member {start : Span} {n : Nat} {e : Expr} {b : Option Token} {t u : Token}
    {ahead : List Token} {els : List String} {x : String} {optional : Bool}
    (ht : t.kind = .symbol (if optional then .optionalChain else .dot))
    (hu : u.kind.word? = some x) :
    chain rules start (n + 1) e ⟨b, t :: u :: ahead, els⟩ =
      chain rules start n (.member e (.identifier x u.span) false optional (spanTo start (some u)))
        ⟨some u, ahead, els⟩ := by
  rw [chain, run_bind (run_peekKind _)]
  cases optional with
  | true =>
    simp only [Stream.kind_mk, nextKind_cons, ht, if_true]
    rw [run_bind (run_advance _ _ _ _), run_bind (run_propertyName hu), run_bind (run_spanFrom _ _)]
  | false =>
    simp only [Stream.kind_mk, nextKind_cons, ht, Bool.false_eq_true, if_false]
    rw [run_bind (run_advance _ _ _ _), run_bind (run_propertyName hu), run_bind (run_spanFrom _ _)]

theorem run_chain_computed {start : Span} {n : Nat} {e e₁ : Expr} {b b₁ : Option Token}
    {t u : Token} {ahead rest : List Token} {els : List String}
    (ht : t.kind = .symbol .leftBracket)
    (he : rules.expression ⟨some t, ahead, els⟩ = .ok e₁ ⟨b₁, u :: rest, els⟩)
    (hu : u.kind = .symbol .rightBracket) :
    chain rules start (n + 1) e ⟨b, t :: ahead, els⟩ =
      chain rules start n (.member e e₁ true false (spanTo start (some u))) ⟨some u, rest, els⟩ := by
  rw [chain, run_bind (run_peekKind _)]
  simp only [Stream.kind_mk, nextKind_cons, ht]
  rw [run_bind (run_advance _ _ _ _), run_bind he, run_bind (run_expectSymbol hu),
    run_bind (run_spanFrom _ _)]

theorem run_chain_call {start : Span} {n : Nat} {e : Expr} {es : List Expr}
    {b b₁ : Option Token} {t : Token} {ahead rest : List Token} {els : List String}
    (ht : t.kind = .symbol .leftParen)
    (he : arguments rules ⟨b, t :: ahead, els⟩ = .ok es ⟨b₁, rest, els⟩) :
    chain rules start (n + 1) e ⟨b, t :: ahead, els⟩ =
      chain rules start n (.call e es (spanTo start b₁)) ⟨b₁, rest, els⟩ := by
  rw [chain, run_bind (run_peekKind _)]
  simp only [Stream.kind_mk, nextKind_cons, ht]
  rw [run_bind he, run_bind (run_spanFrom _ _)]

/-- The lexemes are read as an expression behind which members and calls may still come. -/
def ReadsChain (rules : Rules) (ls : List Lexeme) (e : Expr) : Prop :=
  ∀ b els ahead rest, Shows ls ahead rest → ∃ start n e' b', rest.length < n ∧
    callMember rules ⟨b, ahead, els⟩ = chain rules start n e' ⟨b', rest, els⟩ ∧
    e'.withoutSpans = e.withoutSpans

/-- No kind of token joins more tightly than members and calls do. -/
theorem joinLevel_lt_primary (k : Kind) : k.joinLevel < Level.primary := by
  cases k with
  | symbol mark => cases mark <;> decide
  | _ => exact Nat.zero_lt_succ _

theorem ReadsChain.of_primary {ls : List Lexeme} {l : Lexeme} {e : Expr}
    (h : ReadsAt (primary rules) Level.primary (l :: ls) e) (hl : l.kind ≠ .keyword .new_) :
    ReadsChain rules (l :: ls) e := by
  intro b els ahead rest hs
  obtain ⟨e', b', he, hv⟩ := h b els ahead rest hs (joinLevel_lt_primary _)
  refine ⟨(ahead.head?.getD .past).span, rest.length + 1, e', b', by omega, ?_, hv⟩
  rw [callMember, run_bind (run_peek _), run_bind (run_check _ _)]
  simp only [Stream.kind_mk, hs.nextKind, beq_eq_false_iff_ne.mpr hl, Bool.false_eq_true,
    if_false]
  rw [run_bind he, run_bind (run_budget _)]
  rfl

/-! ### Operands -/

/-- Whether an operator can stand in front of an operand with this token. -/
def isOperatorInFront (k : Kind) : Bool :=
  (UnaryOp.ofKind? k).isSome || (UpdateOp.ofKind? k).isSome

theorem run_postfixed_stop {e : Expr} {s s' : Stream} (h : callMember rules s = .ok e s')
    (hs : s'.kind.joinLevel < Level.afterOperand) : postfixed rules s = .ok e s' := by
  rw [postfixed, run_bind (run_peek _), run_bind h, run_bind (run_peek _)]
  by_cases hn : s'.next.newlineBefore = true
  · rw [if_pos hn]
    rfl
  · rw [if_neg hn]
    have hu : UpdateOp.ofKind? s'.next.kind = none := by
      cases hu : UpdateOp.ofKind? s'.next.kind with
      | none => rfl
      | some op => exact absurd (UpdateOp.joinLevel_of_ofKind? hu) (Nat.ne_of_lt hs)
    rw [hu]
    rfl

theorem run_operand_postfixed {s : Stream} (h : isOperatorInFront s.kind = false) :
    operand rules s = postfixed rules s := by
  simp only [isOperatorInFront, Bool.or_eq_false_iff, Option.isSome_eq_false_iff,
    Option.isNone_iff_eq_none] at h
  rw [operand, run_bind (run_peek _), run_bind (run_peekKind _), h.1, h.2]

/-- The operand ends where members and calls do, unless an update operator follows. -/
theorem ReadsAt.operand_of_chain {ls : List Lexeme} {l : Lexeme} {e : Expr}
    (h : ReadsChain rules (l :: ls) e) (hl : isOperatorInFront l.kind = false) :
    ReadsAt (operand rules) Level.unary (l :: ls) e := by
  intro b els ahead rest hs hstop
  obtain ⟨start, n, e', b', hn, hc, hv⟩ := h b els ahead rest hs
  have hstop' : (nextKind rest).joinLevel < Level.unary := hstop
  have hcall : (Stream.mk b' rest els).kind.joinLevel < Level.call :=
    Nat.lt_of_lt_of_le hstop' (by decide)
  rw [run_chain_stop (by omega) hcall] at hc
  refine ⟨e', b', ?_, hv⟩
  rw [run_operand_postfixed (by simpa [hs.nextKind] using hl)]
  refine run_postfixed_stop hc ?_
  simp only [Stream.kind_mk, Level.afterOperand, Level.unary] at *
  omega

/-! ### Binary operators -/

/-- Operators end before a token that is none, or one that does not bind tighter. -/
theorem run_operators_end {right : Nat → Parse Expr} {start : Span} {least n : Nat} {e : Expr}
    {s : Stream} (hn : 0 < n)
    (hs : ∀ op, BinaryOp.ofKind? s.kind = some op → op.precedence ≤ least) :
    operators right start least n e s = .ok e s := by
  cases n with
  | zero => omega
  | succ n =>
    rw [operators, run_bind (run_peekKind _)]
    cases hop : BinaryOp.ofKind? s.kind with
    | none => rfl
    | some op =>
      simp only [hs op hop, if_true]
      rfl

theorem run_operators_stop {right : Nat → Parse Expr} {start : Span} {least n : Nat} {e : Expr}
    {s : Stream} (hn : 0 < n) (hs : s.kind.joinLevel < least + 3) :
    operators right start least n e s = .ok e s := by
  refine run_operators_end hn fun op hop => ?_
  have hl := BinaryOp.joinLevel_of_ofKind? hop
  simp only [Level.binary, Level.conditional] at hl
  omega

theorem run_operators_step {right : Nat → Parse Expr} (start : Span) {least : Nat} (n : Nat)
    (e : Expr) {e₁ : Expr} (b : Option Token) {t : Token} {ahead : List Token} {els : List String}
    {s' : Stream} {op : BinaryOp} (ht : t.kind = .symbol op.symbol) (hop : least < op.precedence)
    (he : right op.precedence ⟨some t, ahead, els⟩ = .ok e₁ s') :
    operators right start least (n + 1) e ⟨b, t :: ahead, els⟩ =
      operators right start least n (.binary e op e₁ (spanTo start s'.behind)) s' := by
  rw [operators, run_bind (run_peekKind _)]
  simp only [Stream.kind_mk, nextKind_cons, ht, BinaryOp.ofKind?_symbol, Nat.not_le.mpr hop,
    if_false]
  rw [run_bind (run_advance _ _ _ _), run_bind he, run_bind (run_spanFrom _ _)]

/-- Climbing is an operand and the operators behind it. Past the tightest operator it is the operand
alone, which is the same. -/
theorem run_climb {levels least : Nat} {e : Expr} {s s' : Stream}
    (h : BinaryOp.maxPrecedence ≤ levels + least) (he : operand rules s = .ok e s') :
    climb rules levels least s =
      operators (climb rules (levels - 1)) s.next.span least (s'.ahead.length + 1) e s' := by
  cases levels with
  | zero =>
    rw [climb, he, run_operators_end (by omega)]
    intro op _
    have := op.precedence_bounds
    simp only [BinaryOp.maxPrecedence] at h
    omega
  | succ levels =>
    rw [climb, run_bind (run_peek _), run_bind he, run_bind (run_budget _)]
    rfl

/-- The lexemes are read as an expression of a level, behind which operators of that level or looser
ones may still come. -/
def ReadsOperands (rules : Rules) (level : Nat) (ls : List Lexeme) (e : Expr) : Prop :=
  ∀ levels least, BinaryOp.maxPrecedence ≤ levels + least → least + 3 ≤ level →
    ∀ b els ahead rest, Shows ls ahead rest →
      (nextKind rest).joinLevel ≤ level → (nextKind rest).joinLevel < Level.unary →
      ∃ start n e' b', rest.length < n ∧
        climb rules levels least ⟨b, ahead, els⟩ =
          operators (climb rules (levels - 1)) start least n e' ⟨b', rest, els⟩ ∧
        e'.withoutSpans = e.withoutSpans

theorem ReadsOperands.of_operand {ls : List Lexeme} {e : Expr} {level : Nat}
    (h : ReadsAt (operand rules) Level.unary ls e) : ReadsOperands rules level ls e := by
  intro levels least hl _ b els ahead rest hs _ hstop
  obtain ⟨e', b', he, hv⟩ := h b els ahead rest hs hstop
  exact ⟨_, rest.length + 1, e', b', by omega, run_climb hl he, hv⟩

/-- An expression of a level is read where operators that bind more tightly than `least` are
read. -/
theorem ReadsOperands.climb {ls : List Lexeme} {e : Expr} {level : Nat}
    (h : ReadsOperands rules level ls e) (levels least : Nat)
    (hl : BinaryOp.maxPrecedence ≤ levels + least)
    (hlevel : least + 3 ≤ level) (hleast : least ≤ BinaryOp.maxPrecedence) :
    ReadsAt (Parse.climb rules levels least) (least + 3) ls e := by
  intro b els ahead rest hs hstop
  have hstop' : (nextKind rest).joinLevel < least + 3 := hstop
  simp only [BinaryOp.maxPrecedence] at hl hleast
  obtain ⟨start, n, e', b', hn, he, hv⟩ := h levels least hl hlevel b els ahead rest hs
    (by omega) (by simp only [Level.unary]; omega)
  exact ⟨e', b', by rw [he, run_operators_stop (by omega) hstop], hv⟩

/-- Two operands with an operator between them. -/
theorem ReadsOperands.binary {left right : Expr} {op : BinaryOp} {ls ms : List Lexeme}
    {l r : Nat} {span : Span} (hleft : ReadsOperands rules l ls left)
    (hright : ReadsOperands rules r ms right) (hl : Level.binary op ≤ l)
    (hr : Level.binary op + 1 ≤ r) :
    ReadsOperands rules (Level.binary op) (ls ++ .mark op.symbol :: ms)
      (.binary left op right span) := by
  intro levels least hlevels hleast b els ahead rest hs hstop _
  have hp := op.precedence_bounds
  simp only [Level.binary, Level.conditional] at hl hr hleast hstop
  obtain ⟨middle, hs₁, t, ahead₂, rfl, ⟨ht, -⟩, hs₂⟩ := shows_append.mp hs
  have ht : t.kind = .symbol op.symbol := ht
  have hjoin : (nextKind (t :: ahead₂)).joinLevel = Level.binary op := by
    rw [nextKind_cons, ht, op.joinLevel_symbol]
  simp only [Level.binary, Level.conditional] at hjoin
  obtain ⟨start, n, e₁, b₁, hn, h₁, hv₁⟩ := hleft levels least hlevels (by omega) b els ahead _ hs₁
    (by omega) (by simp only [Level.unary]; omega)
  simp only [BinaryOp.maxPrecedence] at hlevels
  -- The right operand is read by the rule for tighter operators.
  obtain ⟨e₂, b₂, h₂, hv₂⟩ := hright.climb (levels - 1) op.precedence
    (by simp only [BinaryOp.maxPrecedence]; omega) (by omega)
    (by simp only [BinaryOp.maxPrecedence]; omega) (some t) els ahead₂ rest hs₂
    (by show (nextKind rest).joinLevel < op.precedence + 3; omega)
  obtain ⟨m, rfl⟩ : ∃ m, n = m + 1 := ⟨n - 1, by omega⟩
  have h₃ := run_operators_step start m e₁ b₁ ht (by omega : least < op.precedence) h₂
  refine ⟨start, m, _, b₂, ?_, h₁.trans h₃, by simp [Expr.withoutSpans, hv₁, hv₂]⟩
  have := shows_length hs₂
  simp only [List.length_cons] at hn
  omega

/-! ### Conditionals and whole expressions -/

theorem ReadsAt.mono {p : Parse Expr} {level level' : Nat} {ls : List Lexeme} {e : Expr}
    (h : ReadsAt p level ls e) (hle : level' ≤ level) : ReadsAt p level' ls e :=
  fun b els ahead rest hs hstop => h b els ahead rest hs (Nat.lt_of_lt_of_le hstop hle)

/-- A conditional is its first part alone, if what follows asks for no more. -/
theorem run_conditional_stop {e : Expr} {s s' : Stream} (h : Parse.binary rules 0 s = .ok e s')
    (hs : s'.kind.joinLevel ≠ Level.conditional) : conditional rules s = .ok e s' := by
  have hquestion : s'.kind ≠ .symbol .question := by
    intro hquestion
    rw [hquestion] at hs
    exact hs rfl
  rw [conditional, run_bind (run_peek _), run_bind h, run_bind (run_eat_other hquestion)]
  rfl

theorem ReadsAt.conditional_of_operands {ls : List Lexeme} {e : Expr} {n : Nat}
    (h : ReadsOperands rules n ls e) (hlevel : 3 ≤ n) :
    ReadsAt (conditional rules) Level.conditional ls e := by
  intro b els ahead rest hs hstop
  have hstop' : (nextKind rest).joinLevel < Level.conditional := hstop
  obtain ⟨e', b', he, hv⟩ := h.climb (BinaryOp.maxPrecedence - 0) 0 (by decide)
    (by omega) (by decide) b els ahead rest hs (Nat.lt_succ_of_lt hstop')
  exact ⟨e', b', run_conditional_stop he (Nat.ne_of_lt hstop'), hv⟩

/-- No arrow function starts with these lexemes. -/
def NoArrow (ls : List Lexeme) : Prop :=
  ∀ b els ahead rest, Shows ls ahead rest → nextKind rest ≠ .symbol .arrow →
    arrowAhead ⟨b, ahead, els⟩ = false

/-- An expression that is no arrow function ends before anything but an assignment. -/
theorem run_expression_stop {e : Expr} {s s' : Stream} (harrow : arrowAhead s = false)
    (h : conditional rules s = .ok e s') (hs : s'.kind.joinLevel ≠ Level.assignment) :
    expression rules s = .ok e s' := by
  have hassign : AssignOp.ofKind? s'.kind = none := by
    cases hop : AssignOp.ofKind? s'.kind with
    | none => rfl
    | some op => exact absurd (AssignOp.joinLevel_of_ofKind? hop) hs
  rw [expression, run_bind (run_get _), harrow]
  simp only [Bool.false_eq_true, if_false]
  rw [run_bind (run_peek _), run_bind h, run_bind (run_peekKind _), hassign]
  rfl

theorem ReadsAt.expression_of_conditional {ls : List Lexeme} {e : Expr}
    (h : ReadsAt (conditional rules) Level.assignment ls e) (hno : NoArrow ls) :
    ReadsAt (expression rules) Level.assignment ls e := by
  intro b els ahead rest hs hstop
  obtain ⟨e', b', he, hv⟩ := h b els ahead rest hs hstop
  have hstop' : (nextKind rest).joinLevel < Level.assignment := hstop
  have harrow : nextKind rest ≠ .symbol .arrow := by
    intro ha
    rw [ha] at hstop'
    exact absurd hstop' (by decide)
  exact ⟨e', b', run_expression_stop (hno b els ahead rest hs harrow) he (Nat.ne_of_lt hstop'), hv⟩

/-- An expression in parentheses. -/
theorem Reads.parenthesised {ls : List Lexeme} {e : Expr}
    (h : ReadsAt rules.expression Level.assignment ls e) :
    Reads (parenthesised rules) (.mark .leftParen :: (ls ++ [.mark .rightParen])) (fun _ => True)
      Expr.withoutSpans e.withoutSpans := by
  rintro b els ahead rest ⟨t, ahead₁, rfl, ⟨ht, -⟩, hs⟩ _
  obtain ⟨middle, hs₁, u, rest', rfl, ⟨hu, -⟩, rfl⟩ := shows_append.mp hs
  have hu : u.kind = .symbol .rightParen := hu
  obtain ⟨e', b', he, hv⟩ := h (some t) els ahead₁ _ hs₁
    (by show (nextKind (u :: rest')).joinLevel < _; rw [nextKind_cons, hu]; decide)
  refine ⟨e', some u, ?_, hv⟩
  rw [Parse.parenthesised, run_bind (run_expectSymbol ht), run_bind he,
    run_bind (run_expectSymbol hu)]
  rfl

/-- In parentheses an expression is primary. -/
theorem ReadsAt.parenthesised {ls : List Lexeme} {e : Expr}
    (h : ReadsAt rules.expression Level.assignment ls e) :
    ReadsAt (primary rules) Level.primary (.mark .leftParen :: ls ++ [.mark .rightParen]) e := by
  intro b els ahead rest hs _
  obtain ⟨e', b', he, hv⟩ := Reads.parenthesised h b els ahead rest hs trivial
  refine ⟨e', b', ?_, hv⟩
  obtain ⟨t, ahead₁, rfl, ⟨ht, -⟩, -⟩ := hs
  have ht : t.kind = .symbol .leftParen := ht
  rw [primary, run_bind (run_peek _)]
  simp only [atom?, Stream.next_cons, ht]
  exact he

end Parse

end MarkupScript
