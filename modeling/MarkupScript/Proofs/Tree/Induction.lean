import MarkupScript.Tree.Basic

/-!
# Induction over trees

Expressions and statements contain each other, in lists and in places that may be empty.
`TreeInduction P Q` holds one field for each form of expression and statement: if the property holds
of all parts, it holds of the whole. From that `P` holds of all expressions and `Q` of all
statements.
-/

namespace MarkupScript

/-- The steps of an induction over expressions, with `P`, and statements, with `Q`. -/
structure TreeInduction (P : Expr → Prop) (Q : Stmt → Prop) : Prop where
  number : ∀ value s, P (.number value s)
  string : ∀ value s, P (.string value s)
  boolean : ∀ value s, P (.boolean value s)
  null : ∀ s, P (.null s)
  this_ : ∀ s, P (.this_ s)
  identifier : ∀ name s, P (.identifier name s)
  binary : ∀ left op right s, P left → P right → P (.binary left op right s)
  unary : ∀ op operand s, P operand → P (.unary op operand s)
  update : ∀ op inFront operand s, P operand → P (.update op inFront operand s)
  member : ∀ object property computed optional s, P object → P property →
    P (.member object property computed optional s)
  call : ∀ callee arguments s, P callee → (∀ e ∈ arguments, P e) → P (.call callee arguments s)
  new : ∀ callee arguments s, P callee → (∀ e ∈ arguments, P e) → P (.new callee arguments s)
  conditional : ∀ test consequent alternate s, P test → P consequent → P alternate →
    P (.conditional test consequent alternate s)
  object : ∀ properties s, (∀ p ∈ properties, P p.value) → P (.object properties s)
  array : ∀ items s, (∀ e ∈ items, P e) → P (.array items s)
  arrowExpression : ∀ params value s, P value → P (.arrow params (.expression value) s)
  arrowBlock : ∀ params body s, (∀ t ∈ body, Q t) → P (.arrow params (.block body) s)
  assignment : ∀ target op value s, P target → P value → P (.assignment target op value s)
  expression : ∀ value, P value → Q (.expression value)
  declaration : ∀ kind ds, (∀ d ∈ ds, ∀ e ∈ d.init, P e) →
    Q (.declaration kind ds)
  function : ∀ name params body decorator, (∀ t ∈ body, Q t) →
    (∀ d ∈ decorator, ∀ e ∈ d.arguments, P e) → Q (.function name params body decorator)
  return_ : ∀ value, (∀ e ∈ value, P e) → Q (.return_ value)
  if_ : ∀ test consequent alternate, P test → Q consequent → (∀ t ∈ alternate, Q t) →
    Q (.if_ test consequent alternate)
  while_ : ∀ test body, P test → Q body → Q (.while_ test body)
  for_ : ∀ init test update body, (∀ t ∈ init, Q t) →
    (∀ value, init = some (.expression value) → P value) →
    (∀ kind ds, init = some (.declaration kind ds) →
      ∀ d ∈ ds, ∀ e ∈ d.init, P e) →
    (∀ e ∈ test, P e) → (∀ e ∈ update, P e) → Q body → Q (.for_ init test update body)
  block : ∀ body, (∀ t ∈ body, Q t) → Q (.block body)
  break_ : Q .break_
  continue_ : Q .continue_
  import_ : ∀ defaultName specifiers source, Q (.import_ defaultName specifiers source)
  export_ : ∀ declared, Q declared → Q (.export_ declared)
  empty : Q .empty
  elementStart : ∀ name attributes s, (∀ x e, .braced x e ∈ attributes → P e) →
    Q (.elementStart name attributes s)
  elementEnd : ∀ name s, Q (.elementEnd name s)
  element : ∀ name attributes s, (∀ x e, .braced x e ∈ attributes → P e) →
    Q (.element name attributes s)
  decorator : ∀ d : Decorator, (∀ e ∈ d.arguments, P e) → Q (.decorator d)

namespace TreeInduction

variable {P : Expr → Prop} {Q : Stmt → Prop}

mutual

theorem expr (h : TreeInduction P Q) : ∀ e, P e
  | .number value s => h.number value s
  | .string value s => h.string value s
  | .boolean value s => h.boolean value s
  | .null s => h.null s
  | .this_ s => h.this_ s
  | .identifier name s => h.identifier name s
  | .binary left op right s => h.binary left op right s (h.expr left) (h.expr right)
  | .unary op operand s => h.unary op operand s (h.expr operand)
  | .update op inFront operand s => h.update op inFront operand s (h.expr operand)
  | .member object property computed optional s =>
    h.member object property computed optional s (h.expr object) (h.expr property)
  | .call callee arguments s => h.call callee arguments s (h.expr callee) (h.exprs arguments)
  | .new callee arguments s => h.new callee arguments s (h.expr callee) (h.exprs arguments)
  | .conditional test consequent alternate s =>
    h.conditional test consequent alternate s (h.expr test) (h.expr consequent) (h.expr alternate)
  | .object properties s => h.object properties s (h.props properties)
  | .array items s => h.array items s (h.exprs items)
  | .arrow params (.expression value) s => h.arrowExpression params value s (h.expr value)
  | .arrow params (.block body) s => h.arrowBlock params body s (h.stmts body)
  | .assignment target op value s => h.assignment target op value s (h.expr target) (h.expr value)
termination_by structural x => x

theorem exprs (h : TreeInduction P Q) : ∀ es : List Expr, ∀ e ∈ es, P e
  | [], _, hm => nomatch hm
  | e :: rest, x, hm => by
    cases hm with
    | head => exact h.expr e
    | tail _ hm => exact h.exprs rest x hm
termination_by structural x => x

theorem expr? (h : TreeInduction P Q) : ∀ e : Option Expr, ∀ x ∈ e, P x
  | none, _, hm => nomatch hm
  | some e, x, hm => by
    cases hm
    exact h.expr e
termination_by structural x => x

theorem props (h : TreeInduction P Q) : ∀ ps : List Property, ∀ p ∈ ps, P p.value
  | [], _, hm => nomatch hm
  | ⟨_, value, _⟩ :: rest, x, hm => by
    cases hm with
    | head => exact h.expr value
    | tail _ hm => exact h.props rest x hm
termination_by structural x => x

theorem stmt (h : TreeInduction P Q) : ∀ s, Q s
  | .expression value => h.expression value (h.expr value)
  | .declaration kind ds => h.declaration kind ds (h.declarators ds)
  | .function name params body decorator =>
    h.function name params body decorator (h.stmts body) (h.decorator? decorator)
  | .return_ value => h.return_ value (h.expr? value)
  | .if_ test consequent alternate =>
    h.if_ test consequent alternate (h.expr test) (h.stmt consequent) (h.stmt? alternate)
  | .while_ test body => h.while_ test body (h.expr test) (h.stmt body)
  | .for_ init test update body =>
    h.for_ init test update body (h.stmt? init) (h.initExpr init) (h.initDeclarators init)
      (h.expr? test) (h.expr? update) (h.stmt body)
  | .block body => h.block body (h.stmts body)
  | .break_ => h.break_
  | .continue_ => h.continue_
  | .import_ defaultName specifiers source => h.import_ defaultName specifiers source
  | .export_ declared => h.export_ declared (h.stmt declared)
  | .empty => h.empty
  | .elementStart name attributes s => h.elementStart name attributes s (h.attrs attributes)
  | .elementEnd name s => h.elementEnd name s
  | .element name attributes s => h.element name attributes s (h.attrs attributes)
  | .decorator ⟨name, arguments, span⟩ => h.decorator ⟨name, arguments, span⟩ (h.exprs arguments)
termination_by structural x => x

theorem stmts (h : TreeInduction P Q) : ∀ ss : List Stmt, ∀ s ∈ ss, Q s
  | [], _, hm => nomatch hm
  | s :: rest, x, hm => by
    cases hm with
    | head => exact h.stmt s
    | tail _ hm => exact h.stmts rest x hm
termination_by structural x => x

theorem stmt? (h : TreeInduction P Q) : ∀ s : Option Stmt, ∀ x ∈ s, Q x
  | none, _, hm => nomatch hm
  | some s, x, hm => by
    cases hm
    exact h.stmt s
termination_by structural x => x

theorem initExpr (h : TreeInduction P Q) : ∀ init : Option Stmt, ∀ value,
    init = some (.expression value) → P value
  | some (.expression value), _, rfl => h.expr value
termination_by structural x => x

theorem initDeclarators (h : TreeInduction P Q) : ∀ init : Option Stmt, ∀ kind ds,
    init = some (.declaration kind ds) → ∀ d ∈ ds, ∀ e ∈ d.init, P e
  | some (.declaration _ ds), _, _, rfl => h.declarators ds
termination_by structural x => x

theorem declarators (h : TreeInduction P Q) : ∀ ds : List Declarator, ∀ d ∈ ds, ∀ e ∈ d.init, P e
  | [], _, hm => nomatch hm
  | ⟨_, init⟩ :: rest, x, hm => by
    cases hm with
    | head => exact h.expr? init
    | tail _ hm => exact h.declarators rest x hm
termination_by structural x => x

theorem attrs (h : TreeInduction P Q) : ∀ as : List Attribute, ∀ x e, .braced x e ∈ as → P e
  | [], _, _, hm => nomatch hm
  | .braced _ value :: rest, x, e, hm => by
    cases hm with
    | head => exact h.expr value
    | tail _ hm => exact h.attrs rest x e hm
  | .bare _ :: rest, x, e, hm => by
    cases hm with
    | tail _ hm => exact h.attrs rest x e hm
  | .text _ _ :: rest, x, e, hm => by
    cases hm with
    | tail _ hm => exact h.attrs rest x e hm
termination_by structural x => x

theorem decorator? (h : TreeInduction P Q) : ∀ d : Option Decorator, ∀ x ∈ d, ∀ e ∈ x.arguments, P e
  | none, _, hm => nomatch hm
  | some ⟨_, arguments, _⟩, x, hm => by
    cases hm
    exact h.exprs arguments
termination_by structural x => x

end

end TreeInduction

end MarkupScript
