import MarkupScript.Tree.Basic

/-!
# Counting the parts of a tree

`Program.count` is the number of expressions that pass one test and of statements that pass another,
however deep they lie.
-/

namespace MarkupScript

section

variable (onExpr : Expr → Bool) (onStmt : Stmt → Bool)

mutual

/-- How many parts of an expression pass, itself included. -/
def Expr.count : Expr → Nat
  | .number value s => (onExpr (.number value s)).toNat
  | .string value s => (onExpr (.string value s)).toNat
  | .boolean value s => (onExpr (.boolean value s)).toNat
  | .null s => (onExpr (.null s)).toNat
  | .this_ s => (onExpr (.this_ s)).toNat
  | .identifier name s => (onExpr (.identifier name s)).toNat
  | .binary left op right s =>
    (onExpr (.binary left op right s)).toNat + left.count + right.count
  | .unary op operand s => (onExpr (.unary op operand s)).toNat + operand.count
  | .update op inFront operand s => (onExpr (.update op inFront operand s)).toNat + operand.count
  | .member object property computed optional s =>
    (onExpr (.member object property computed optional s)).toNat + object.count + property.count
  | .call callee arguments s =>
    (onExpr (.call callee arguments s)).toNat + callee.count + countExprs arguments
  | .new callee arguments s =>
    (onExpr (.new callee arguments s)).toNat + callee.count + countExprs arguments
  | .conditional test consequent alternate s =>
    (onExpr (.conditional test consequent alternate s)).toNat + test.count + consequent.count +
      alternate.count
  | .object properties s => (onExpr (.object properties s)).toNat + countProperties properties
  | .array items s => (onExpr (.array items s)).toNat + countExprs items
  | .arrow params body s => (onExpr (.arrow params body s)).toNat + body.count
  | .assignment target op value s =>
    (onExpr (.assignment target op value s)).toNat + target.count + value.count

/-- How many parts of the expressions of a list pass. -/
def countExprs : List Expr → Nat
  | [] => 0
  | e :: rest => e.count + countExprs rest

/-- How many parts of an expression pass, if there is one. -/
def countExpr? : Option Expr → Nat
  | none => 0
  | some e => e.count

/-- How many parts of the values of properties pass. -/
def countProperties : List Property → Nat
  | [] => 0
  | ⟨_, value, _⟩ :: rest => value.count + countProperties rest

/-- How many parts of the body of an arrow function pass. -/
def ArrowBody.count : ArrowBody → Nat
  | .expression value => value.count
  | .block body => countStmts body

/-- How many parts of a statement pass, itself included. -/
def Stmt.count : Stmt → Nat
  | .expression value => (onStmt (.expression value)).toNat + value.count
  | .declaration kind ds => (onStmt (.declaration kind ds)).toNat + countDeclarators ds
  | .function name params body decorator =>
    (onStmt (.function name params body decorator)).toNat + countStmts body +
      countDecorator? decorator
  | .return_ value => (onStmt (.return_ value)).toNat + countExpr? value
  | .if_ test consequent alternate =>
    (onStmt (.if_ test consequent alternate)).toNat + test.count + consequent.count +
      countStmt? alternate
  | .while_ test body => (onStmt (.while_ test body)).toNat + test.count + body.count
  | .for_ init test update body =>
    (onStmt (.for_ init test update body)).toNat + countStmt? init + countExpr? test +
      countExpr? update + body.count
  | .block body => (onStmt (.block body)).toNat + countStmts body
  | .break_ => (onStmt .break_).toNat
  | .continue_ => (onStmt .continue_).toNat
  | .import_ defaultName specifiers source =>
    (onStmt (.import_ defaultName specifiers source)).toNat
  | .export_ declared => (onStmt (.export_ declared)).toNat + declared.count
  | .empty => (onStmt .empty).toNat
  | .elementStart name attributes s =>
    (onStmt (.elementStart name attributes s)).toNat + countAttributes attributes
  | .elementEnd name s => (onStmt (.elementEnd name s)).toNat
  | .element name attributes s =>
    (onStmt (.element name attributes s)).toNat + countAttributes attributes
  | .decorator value => (onStmt (.decorator value)).toNat + value.count

/-- How many parts of the statements of a list pass. -/
def countStmts : List Stmt → Nat
  | [] => 0
  | s :: rest => s.count + countStmts rest

/-- How many parts of a statement pass, if there is one. -/
def countStmt? : Option Stmt → Nat
  | none => 0
  | some s => s.count

/-- How many parts of the first values of variables pass. -/
def countDeclarators : List Declarator → Nat
  | [] => 0
  | ⟨_, init⟩ :: rest => countExpr? init + countDeclarators rest

/-- How many parts of the values of attributes pass. -/
def countAttributes : List Attribute → Nat
  | [] => 0
  | .braced _ value :: rest => value.count + countAttributes rest
  | .bare _ :: rest => countAttributes rest
  | .text _ _ :: rest => countAttributes rest

/-- How many parts of the arguments of a decorator pass. -/
def Decorator.count : Decorator → Nat
  | ⟨_, arguments, _⟩ => countExprs arguments

/-- How many parts of a decorator pass, if there is one. -/
def countDecorator? : Option Decorator → Nat
  | none => 0
  | some d => d.count

end

/-- How many expressions and statements of a program pass. -/
def Program.count (p : Program) : Nat := countStmts onExpr onStmt p.body

/-! ### Parts and lists of parts -/

@[simp] theorem Expr.count_identifier (x : String) (s : Span) :
    (Expr.identifier x s).count onExpr onStmt = (onExpr (.identifier x s)).toNat := by
  rw [Expr.count]

@[simp] theorem Stmt.count_expression (e : Expr) : (Stmt.expression e).count onExpr onStmt =
    (onStmt (.expression e)).toNat + e.count onExpr onStmt := by
  rw [Stmt.count]

@[simp] theorem Stmt.count_declaration (kind : VariableKind) (ds : List Declarator) :
    (Stmt.declaration kind ds).count onExpr onStmt =
      (onStmt (.declaration kind ds)).toNat + countDeclarators onExpr onStmt ds :=
  rfl

@[simp] theorem countExprs_cons (e : Expr) (es : List Expr) :
    countExprs onExpr onStmt (e :: es) = e.count onExpr onStmt + countExprs onExpr onStmt es := rfl

@[simp] theorem countExpr?_none : countExpr? onExpr onStmt none = 0 := rfl

@[simp] theorem countExpr?_some (e : Expr) :
    countExpr? onExpr onStmt (some e) = e.count onExpr onStmt := rfl

@[simp] theorem countProperties_cons (p : Property) (ps : List Property) :
    countProperties onExpr onStmt (p :: ps) =
      p.value.count onExpr onStmt + countProperties onExpr onStmt ps := by
  cases p
  rfl

@[simp] theorem countStmts_cons (s : Stmt) (ss : List Stmt) :
    countStmts onExpr onStmt (s :: ss) = s.count onExpr onStmt + countStmts onExpr onStmt ss := rfl

@[simp] theorem countStmt?_some (s : Stmt) :
    countStmt? onExpr onStmt (some s) = s.count onExpr onStmt := rfl

@[simp] theorem countDeclarators_cons (d : Declarator) (ds : List Declarator) :
    countDeclarators onExpr onStmt (d :: ds) =
      countExpr? onExpr onStmt d.init + countDeclarators onExpr onStmt ds := by
  cases d
  rfl

@[simp] theorem countAttributes_bare (x : String) (as : List Attribute) :
    countAttributes onExpr onStmt (.bare x :: as) = countAttributes onExpr onStmt as := rfl

@[simp] theorem countAttributes_text (x value : String) (as : List Attribute) :
    countAttributes onExpr onStmt (.text x value :: as) = countAttributes onExpr onStmt as := rfl

@[simp] theorem countAttributes_braced (x : String) (e : Expr) (as : List Attribute) :
    countAttributes onExpr onStmt (.braced x e :: as) =
      e.count onExpr onStmt + countAttributes onExpr onStmt as := rfl

end

end MarkupScript
