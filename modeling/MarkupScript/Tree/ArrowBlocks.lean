import MarkupScript.Tree.Basic

/-!
# Arrow blocks

The body of an arrow function may be a block of statements, deep inside an expression. The arrow
blocks of a statement are those of its own expressions, from left to right and outermost only:
neither the statements nested in it nor the insides of the blocks count.

`mapArrowBlocks` changes the arrow blocks of a statement one after the other and leaves all else as
it is. `arrowDepth` is how deep arrow blocks lie in one another.
-/

namespace MarkupScript

section

variable {m : Type → Type} [Monad m] (f : List Stmt → m (List Stmt))

mutual

/-- Changes the arrow blocks of an expression. -/
def Expr.mapArrowBlocks : Expr → m Expr
  | .binary left op right s =>
    return .binary (← left.mapArrowBlocks) op (← right.mapArrowBlocks) s
  | .unary op operand s => return .unary op (← operand.mapArrowBlocks) s
  | .update op inFront operand s => return .update op inFront (← operand.mapArrowBlocks) s
  | .member object property computed optional s =>
    return .member (← object.mapArrowBlocks) (← property.mapArrowBlocks) computed optional s
  | .call callee arguments s =>
    return .call (← callee.mapArrowBlocks) (← exprsMapArrowBlocks arguments) s
  | .new callee arguments s =>
    return .new (← callee.mapArrowBlocks) (← exprsMapArrowBlocks arguments) s
  | .conditional test consequent alternate s =>
    return .conditional (← test.mapArrowBlocks) (← consequent.mapArrowBlocks)
      (← alternate.mapArrowBlocks) s
  | .object properties s => return .object (← propertiesMapArrowBlocks properties) s
  | .array items s => return .array (← exprsMapArrowBlocks items) s
  | .arrow params body s => return .arrow params (← body.mapArrowBlocks) s
  | .assignment target op value s =>
    return .assignment (← target.mapArrowBlocks) op (← value.mapArrowBlocks) s
  | e => return e

/-- Changes the arrow blocks of expressions. -/
def exprsMapArrowBlocks : List Expr → m (List Expr)
  | [] => return []
  | e :: rest => return (← e.mapArrowBlocks) :: (← exprsMapArrowBlocks rest)

/-- Changes the arrow blocks of the values of properties. -/
def propertiesMapArrowBlocks : List Property → m (List Property)
  | [] => return []
  | ⟨key, value, shorthand⟩ :: rest =>
    return ⟨key, ← value.mapArrowBlocks, shorthand⟩ :: (← propertiesMapArrowBlocks rest)

/-- Changes the body of an arrow function: a block is an arrow block, an expression may have some
inside. -/
def ArrowBody.mapArrowBlocks : ArrowBody → m ArrowBody
  | .expression value => return .expression (← value.mapArrowBlocks)
  | .block body => return .block (← f body)

end

/-- Changes the arrow blocks of an expression that may be missing. -/
def exprMapArrowBlocks? : Option Expr → m (Option Expr)
  | none => return none
  | some e => return some (← e.mapArrowBlocks f)

/-- Changes the arrow blocks of the first values of variables. -/
def declaratorsMapArrowBlocks : List Declarator → m (List Declarator)
  | [] => return []
  | ⟨name, init⟩ :: rest =>
    return ⟨name, ← exprMapArrowBlocks? f init⟩ :: (← declaratorsMapArrowBlocks rest)

/-- Changes the arrow blocks of an attribute. -/
def Attribute.mapArrowBlocks : Attribute → m Attribute
  | .bare name => return .bare name
  | .text name value => return .text name value
  | .braced name value => return .braced name (← value.mapArrowBlocks f)

/-- Changes the arrow blocks of attributes. -/
def attributesMapArrowBlocks : List Attribute → m (List Attribute)
  | [] => return []
  | a :: rest => return (← a.mapArrowBlocks f) :: (← attributesMapArrowBlocks rest)

mutual

/-- Changes the arrow blocks of a statement's own expressions. The statement that a `for` starts
with belongs to the statement. -/
def Stmt.mapArrowBlocks : Stmt → m Stmt
  | .expression value => return .expression (← value.mapArrowBlocks f)
  | .declaration kind declarators =>
    return .declaration kind (← declaratorsMapArrowBlocks f declarators)
  | .return_ value => return .return_ (← exprMapArrowBlocks? f value)
  | .if_ test consequent alternate =>
    return .if_ (← test.mapArrowBlocks f) consequent alternate
  | .while_ test body => return .while_ (← test.mapArrowBlocks f) body
  | .for_ init test update body =>
    return .for_ (← stmtMapArrowBlocks? init) (← exprMapArrowBlocks? f test)
      (← exprMapArrowBlocks? f update) body
  | .elementStart name attributes s =>
    return .elementStart name (← attributesMapArrowBlocks f attributes) s
  | .element name attributes s => return .element name (← attributesMapArrowBlocks f attributes) s
  | .decorator ⟨name, arguments, span⟩ =>
    return .decorator ⟨name, ← exprsMapArrowBlocks f arguments, span⟩
  | s => return s

/-- Changes the arrow blocks of a statement that may be missing. -/
def stmtMapArrowBlocks? : Option Stmt → m (Option Stmt)
  | none => return none
  | some s => return some (← s.mapArrowBlocks)

end

end

/-! ### Depth -/

mutual

/-- How deep arrow blocks lie in one another in an expression. -/
def Expr.arrowDepth : Expr → Nat
  | .binary left _ right _ => max left.arrowDepth right.arrowDepth
  | .unary _ operand _ => operand.arrowDepth
  | .update _ _ operand _ => operand.arrowDepth
  | .member object property _ _ _ => max object.arrowDepth property.arrowDepth
  | .call callee arguments _ => max callee.arrowDepth (exprsArrowDepth arguments)
  | .new callee arguments _ => max callee.arrowDepth (exprsArrowDepth arguments)
  | .conditional test consequent alternate _ =>
    max test.arrowDepth (max consequent.arrowDepth alternate.arrowDepth)
  | .object properties _ => propertiesArrowDepth properties
  | .array items _ => exprsArrowDepth items
  | .arrow _ body _ => body.arrowDepth
  | .assignment target _ value _ => max target.arrowDepth value.arrowDepth
  | _ => 0

/-- The largest depth in a list of expressions. -/
def exprsArrowDepth : List Expr → Nat
  | [] => 0
  | e :: rest => max e.arrowDepth (exprsArrowDepth rest)

/-- The depth in an expression that may be missing. -/
def exprArrowDepth? : Option Expr → Nat
  | none => 0
  | some e => e.arrowDepth

/-- The largest depth in the values of properties. -/
def propertiesArrowDepth : List Property → Nat
  | [] => 0
  | ⟨_, value, _⟩ :: rest => max value.arrowDepth (propertiesArrowDepth rest)

/-- The depth in the body of an arrow function. An arrow block lies around what it holds. -/
def ArrowBody.arrowDepth : ArrowBody → Nat
  | .expression value => value.arrowDepth
  | .block body => stmtsArrowDepth body + 1

/-- How deep arrow blocks lie in one another in a statement, nested statements included. -/
def Stmt.arrowDepth : Stmt → Nat
  | .expression value => value.arrowDepth
  | .declaration _ declarators => declaratorsArrowDepth declarators
  | .function _ _ body decorator => max (stmtsArrowDepth body) (decoratorArrowDepth? decorator)
  | .return_ value => exprArrowDepth? value
  | .if_ test consequent alternate =>
    max test.arrowDepth (max consequent.arrowDepth (stmtArrowDepth? alternate))
  | .while_ test body => max test.arrowDepth body.arrowDepth
  | .for_ init test update body =>
    max (stmtArrowDepth? init)
      (max (exprArrowDepth? test) (max (exprArrowDepth? update) body.arrowDepth))
  | .block body => stmtsArrowDepth body
  | .export_ declared => declared.arrowDepth
  | .elementStart _ attributes _ => attributesArrowDepth attributes
  | .element _ attributes _ => attributesArrowDepth attributes
  | .decorator value => value.arrowDepth
  | _ => 0

/-- The largest depth in a list of statements. -/
def stmtsArrowDepth : List Stmt → Nat
  | [] => 0
  | s :: rest => max s.arrowDepth (stmtsArrowDepth rest)

/-- The depth in a statement that may be missing. -/
def stmtArrowDepth? : Option Stmt → Nat
  | none => 0
  | some s => s.arrowDepth

/-- The largest depth in the first values of variables. -/
def declaratorsArrowDepth : List Declarator → Nat
  | [] => 0
  | ⟨_, init⟩ :: rest => max (exprArrowDepth? init) (declaratorsArrowDepth rest)

/-- The largest depth in the values of attributes. -/
def attributesArrowDepth : List Attribute → Nat
  | [] => 0
  | .braced _ value :: rest => max value.arrowDepth (attributesArrowDepth rest)
  | _ :: rest => attributesArrowDepth rest

/-- The depth in the arguments of a decorator. -/
def Decorator.arrowDepth : Decorator → Nat
  | ⟨_, arguments, _⟩ => exprsArrowDepth arguments

/-- The depth in a decorator that may be missing. -/
def decoratorArrowDepth? : Option Decorator → Nat
  | none => 0
  | some d => d.arrowDepth

end

/-- How deep arrow blocks lie in one another in a program. -/
def Program.arrowDepth (p : Program) : Nat := stmtsArrowDepth p.body

end MarkupScript
