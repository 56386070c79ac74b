import MarkupScript.Tree.Operator

/-!
# Programs

The tree of a program. Statements of the script and pieces of markup stand side by side: a tag is
a statement, and what lies between a start tag and its end tag are the statements between them. A
decorator is a statement as well, until it is attached to the function behind it.
-/

namespace MarkupScript

/-- A name taken from a module, and the name it has in the program. -/
structure ImportSpecifier where
  imported : String
  localName : String
  deriving DecidableEq

mutual

/-- An expression, with the stretch of source it was read from. -/
inductive Expr where
  | number (value : Double) (span : Span)
  | string (value : String) (span : Span)
  | boolean (value : Bool) (span : Span)
  | null (span : Span)
  | this_ (span : Span)
  | identifier (name : String) (span : Span)
  | binary (left : Expr) (op : BinaryOp) (right : Expr) (span : Span)
  | unary (op : UnaryOp) (operand : Expr) (span : Span)
  /-- `++x` if the operator stands in front, `x++` otherwise. -/
  | update (op : UpdateOp) (inFront : Bool) (operand : Expr) (span : Span)
  /-- `object[property]` if computed, `object.property` otherwise; `object?.property` if
  optional. -/
  | member (object property : Expr) (computed optional : Bool) (span : Span)
  | call (callee : Expr) (arguments : List Expr) (span : Span)
  | new (callee : Expr) (arguments : List Expr) (span : Span)
  | conditional (test consequent alternate : Expr) (span : Span)
  | object (properties : List Property) (span : Span)
  | array (items : List Expr) (span : Span)
  | arrow (params : List String) (body : ArrowBody) (span : Span)
  | assignment (target : Expr) (op : AssignOp) (value : Expr) (span : Span)

/-- A property of an object. In shorthand, the key alone is written and the value is the variable
of that name. -/
structure Property where
  key : String
  value : Expr
  shorthand : Bool

/-- The body of an arrow function. -/
inductive ArrowBody where
  | expression (value : Expr)
  | block (body : List Stmt)

/-- A statement of the script or a piece of markup. -/
inductive Stmt where
  | expression (value : Expr)
  | declaration (kind : VariableKind) (declarators : List Declarator)
  | function (name : String) (params : List String) (body : List Stmt)
      (decorator : Option Decorator)
  | return_ (value : Option Expr)
  | if_ (test : Expr) (consequent : Stmt) (alternate : Option Stmt)
  | while_ (test : Expr) (body : Stmt)
  | for_ (init : Option Stmt) (test update : Option Expr) (body : Stmt)
  | block (body : List Stmt)
  | break_
  | continue_
  | import_ (defaultName : Option String) (specifiers : List ImportSpecifier) (source : String)
  | export_ (declared : Stmt)
  | empty
  /-- `<name attributes>` -/
  | elementStart (name : String) (attributes : List Attribute) (span : Span)
  /-- `</name>`, which ends the innermost open element, whatever the name. -/
  | elementEnd (name : String) (span : Span)
  /-- `<name attributes/>` -/
  | element (name : String) (attributes : List Attribute) (span : Span)
  | decorator (value : Decorator)

/-- A declared variable and its first value. -/
structure Declarator where
  name : String
  init : Option Expr

/-- An attribute of a tag. -/
inductive Attribute where
  /-- `name` -/
  | bare (name : String)
  /-- `name="text"` -/
  | text (name : String) (value : String)
  /-- `name={value}` -/
  | braced (name : String) (value : Expr)

/-- `@name(arguments)` -/
structure Decorator where
  name : String
  arguments : List Expr
  span : Span

end

/-- A program is a list of statements. -/
structure Program where
  body : List Stmt

namespace Expr

/-- The stretch of source that an expression was read from. -/
def span : Expr → Span
  | number _ s | string _ s | boolean _ s | null s | this_ s | identifier _ s
  | binary _ _ _ s | unary _ _ s | update _ _ _ s | member _ _ _ _ s | call _ _ s | new _ _ s
  | conditional _ _ _ s | object _ s | array _ s | arrow _ _ s | assignment _ _ _ s => s

/-- Whether an expression is a string, number, boolean or null. -/
def isLiteral : Expr → Bool
  | number _ _ | string _ _ | boolean _ _ | null _ => true
  | _ => false

/-- Whether an expression names a place that can be assigned to. -/
def isTarget : Expr → Bool
  | identifier _ _ | member _ _ _ _ _ => true
  | _ => false

end Expr

end MarkupScript
