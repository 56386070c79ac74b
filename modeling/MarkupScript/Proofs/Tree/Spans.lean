import MarkupScript.Tree.Basic

/-!
# Trees up to spans

`Program.withoutSpans` forgets where the parts of a program were read. Two programs are the same up
to spans if they are equal without them.
-/

namespace MarkupScript

mutual

/-- An expression without its spans. -/
def Expr.withoutSpans : Expr → Expr
  | .number value _ => .number value default
  | .string value _ => .string value default
  | .boolean value _ => .boolean value default
  | .null _ => .null default
  | .this_ _ => .this_ default
  | .identifier name _ => .identifier name default
  | .binary left op right _ => .binary left.withoutSpans op right.withoutSpans default
  | .unary op operand _ => .unary op operand.withoutSpans default
  | .update op inFront operand _ => .update op inFront operand.withoutSpans default
  | .member object property computed optional _ =>
    .member object.withoutSpans property.withoutSpans computed optional default
  | .call callee arguments _ => .call callee.withoutSpans (exprsWithoutSpans arguments) default
  | .new callee arguments _ => .new callee.withoutSpans (exprsWithoutSpans arguments) default
  | .conditional test consequent alternate _ =>
    .conditional test.withoutSpans consequent.withoutSpans alternate.withoutSpans default
  | .object properties _ => .object (propertiesWithoutSpans properties) default
  | .array items _ => .array (exprsWithoutSpans items) default
  | .arrow params body _ => .arrow params body.withoutSpans default
  | .assignment target op value _ => .assignment target.withoutSpans op value.withoutSpans default

/-- Expressions without their spans. -/
def exprsWithoutSpans : List Expr → List Expr
  | [] => []
  | e :: rest => e.withoutSpans :: exprsWithoutSpans rest

/-- An expression that may be missing, without its spans. -/
def exprWithoutSpans? : Option Expr → Option Expr
  | none => none
  | some e => some e.withoutSpans

/-- The properties of an object without their spans. -/
def propertiesWithoutSpans : List Property → List Property
  | [] => []
  | ⟨key, value, shorthand⟩ :: rest =>
    ⟨key, value.withoutSpans, shorthand⟩ :: propertiesWithoutSpans rest

/-- The body of an arrow function without its spans. -/
def ArrowBody.withoutSpans : ArrowBody → ArrowBody
  | .expression value => .expression value.withoutSpans
  | .block body => .block (stmtsWithoutSpans body)

/-- A statement without its spans. -/
def Stmt.withoutSpans : Stmt → Stmt
  | .expression value => .expression value.withoutSpans
  | .declaration kind ds => .declaration kind (declaratorsWithoutSpans ds)
  | .function name params body decorator =>
    .function name params (stmtsWithoutSpans body) (decoratorWithoutSpans? decorator)
  | .return_ value => .return_ (exprWithoutSpans? value)
  | .if_ test consequent alternate =>
    .if_ test.withoutSpans consequent.withoutSpans (stmtWithoutSpans? alternate)
  | .while_ test body => .while_ test.withoutSpans body.withoutSpans
  | .for_ init test update body =>
    .for_ (stmtWithoutSpans? init) (exprWithoutSpans? test) (exprWithoutSpans? update)
      body.withoutSpans
  | .block body => .block (stmtsWithoutSpans body)
  | .break_ => .break_
  | .continue_ => .continue_
  | .import_ defaultName specifiers source => .import_ defaultName specifiers source
  | .export_ declared => .export_ declared.withoutSpans
  | .empty => .empty
  | .elementStart name attributes _ =>
    .elementStart name (attributesWithoutSpans attributes) default
  | .elementEnd name _ => .elementEnd name default
  | .element name attributes _ => .element name (attributesWithoutSpans attributes) default
  | .decorator value => .decorator value.withoutSpans

/-- Statements without their spans. -/
def stmtsWithoutSpans : List Stmt → List Stmt
  | [] => []
  | s :: rest => s.withoutSpans :: stmtsWithoutSpans rest

/-- A statement that may be missing, without its spans. -/
def stmtWithoutSpans? : Option Stmt → Option Stmt
  | none => none
  | some s => some s.withoutSpans

/-- Declared variables without their spans. -/
def declaratorsWithoutSpans : List Declarator → List Declarator
  | [] => []
  | ⟨name, init⟩ :: rest => ⟨name, exprWithoutSpans? init⟩ :: declaratorsWithoutSpans rest

/-- The attributes of a tag without their spans. -/
def attributesWithoutSpans : List Attribute → List Attribute
  | [] => []
  | .bare name :: rest => .bare name :: attributesWithoutSpans rest
  | .text name value :: rest => .text name value :: attributesWithoutSpans rest
  | .braced name value :: rest => .braced name value.withoutSpans :: attributesWithoutSpans rest

/-- A decorator without its spans. -/
def Decorator.withoutSpans : Decorator → Decorator
  | ⟨name, arguments, _⟩ => ⟨name, exprsWithoutSpans arguments, default⟩

/-- A decorator that may be missing, without its spans. -/
def decoratorWithoutSpans? : Option Decorator → Option Decorator
  | none => none
  | some d => some d.withoutSpans

end

/-- A program without its spans. -/
def Program.withoutSpans (p : Program) : Program := ⟨stmtsWithoutSpans p.body⟩

/-! ### Items of lists -/

/-- A property of an object without its spans. -/
def Property.withoutSpans (p : Property) : Property := ⟨p.key, p.value.withoutSpans, p.shorthand⟩

/-- A declared variable without its spans. -/
def Declarator.withoutSpans (d : Declarator) : Declarator := ⟨d.name, exprWithoutSpans? d.init⟩

/-- An attribute of a tag without its spans. -/
def Attribute.withoutSpans : Attribute → Attribute
  | .bare name => .bare name
  | .text name value => .text name value
  | .braced name value => .braced name value.withoutSpans

theorem exprsWithoutSpans_eq (es : List Expr) :
    exprsWithoutSpans es = es.map Expr.withoutSpans := by
  induction es with
  | nil => rfl
  | cons e es ih => simp [exprsWithoutSpans, ih]

theorem propertiesWithoutSpans_eq (ps : List Property) :
    propertiesWithoutSpans ps = ps.map Property.withoutSpans := by
  induction ps with
  | nil => rfl
  | cons p ps ih =>
    obtain ⟨key, value, shorthand⟩ := p
    simp [propertiesWithoutSpans, Property.withoutSpans, ih]

theorem declaratorsWithoutSpans_eq (ds : List Declarator) :
    declaratorsWithoutSpans ds = ds.map Declarator.withoutSpans := by
  induction ds with
  | nil => rfl
  | cons d ds ih =>
    obtain ⟨name, init⟩ := d
    simp [declaratorsWithoutSpans, Declarator.withoutSpans, ih]

theorem attributesWithoutSpans_eq (as : List Attribute) :
    attributesWithoutSpans as = as.map Attribute.withoutSpans := by
  induction as with
  | nil => rfl
  | cons a as ih => cases a <;> simp [attributesWithoutSpans, Attribute.withoutSpans, ih]

theorem stmtsWithoutSpans_eq (ss : List Stmt) :
    stmtsWithoutSpans ss = ss.map Stmt.withoutSpans := by
  induction ss with
  | nil => rfl
  | cons s ss ih => simp [stmtsWithoutSpans, ih]

theorem Expr.isTarget_withoutSpans (e : Expr) : e.withoutSpans.isTarget = e.isTarget := by
  cases e <;> simp [Expr.withoutSpans, Expr.isTarget]

/-- What can be assigned to does not depend on spans. -/
theorem Expr.isTarget_congr {e e' : Expr} (h : e.withoutSpans = e'.withoutSpans) :
    e.isTarget = e'.isTarget := by
  rw [← e.isTarget_withoutSpans, h, e'.isTarget_withoutSpans]

end MarkupScript
