import MarkupScript.Json.Basic
import MarkupScript.Tree.Basic

/-!
# Programs as JSON documents

The document of a tree says of every node what it is, in a member `type`, and then what it
consists of. An expression keeps its parts under `value` and its place under `span`. A decorator
that a function does not have, and the value that an attribute does not have, are left out; other
missing parts are `null`.
-/

namespace MarkupScript

/-- The document of a stretch of source. -/
def Span.toJson (s : Span) : Json :=
  .object [("start", .natural s.start), ("end", .natural s.stop), ("line", .natural s.line),
    ("column", .natural s.column)]

/-- The name of a binary operator in documents. -/
def BinaryOp.tag : BinaryOp → String
  | add => "Add" | sub => "Sub" | mul => "Mul" | div => "Div" | mod => "Mod"
  | equal => "Eq" | notEqual => "Neq" | strictEqual => "StrictEq" | strictNotEqual => "StrictNeq"
  | less => "Lt" | greater => "Gt" | lessEqual => "Lte" | greaterEqual => "Gte"
  | and => "And" | or => "Or" | nullish => "NullishCoalescing"

/-- The name of a unary operator in documents. -/
def UnaryOp.tag : UnaryOp → String
  | not => "Not" | negate => "Neg" | plus => "Plus" | typeof_ => "Typeof"

/-- The name of an update operator in documents. -/
def UpdateOp.tag : UpdateOp → String
  | increment => "Increment" | decrement => "Decrement"

/-- The name of an assignment operator in documents. -/
def AssignOp.tag : AssignOp → String
  | assign => "Assign" | addAssign => "AddAssign" | subAssign => "SubAssign"
  | mulAssign => "MulAssign" | divAssign => "DivAssign"

/-- The document of an imported name. -/
def ImportSpecifier.toJson (s : ImportSpecifier) : Json :=
  .object [("imported", .string s.imported), ("local", .string s.localName)]

/-- The document of a list of names. -/
def namesToJson (names : List String) : Json := .array (names.map .string)

/-- The document of an expression that has parts. -/
def Json.expression (type : String) (value : Json) (span : Span) : Json :=
  .tagged type [("value", value), ("span", span.toJson)]

mutual

/-- The document of an expression. -/
def Expr.toJson : Expr → Json
  | .number value s => .expression "Number" (.number value) s
  | .string value s => .expression "String" (.string value) s
  | .boolean value s => .expression "Boolean" (.bool value) s
  | .null s => .tagged "Null" [("span", s.toJson)]
  | .this_ s => .tagged "This" [("span", s.toJson)]
  | .identifier name s => .expression "Identifier" (.string name) s
  | .binary left op right s =>
    .expression "Binary"
      (.object [("left", left.toJson), ("op", .string op.tag), ("right", right.toJson)]) s
  | .unary op operand s =>
    .expression "Unary" (.object [("op", .string op.tag), ("operand", operand.toJson)]) s
  | .update op inFront operand s =>
    .expression "Update"
      (.object [("op", .string op.tag), ("prefix", .bool inFront), ("operand", operand.toJson)]) s
  | .member object property computed optional s =>
    .expression "Member"
      (.object [("object", object.toJson), ("property", property.toJson),
        ("computed", .bool computed), ("optional", .bool optional)]) s
  | .call callee arguments s =>
    .expression "Call"
      (.object [("callee", callee.toJson), ("arguments", .array (exprsToJson arguments))]) s
  | .new callee arguments s =>
    .expression "New"
      (.object [("callee", callee.toJson), ("arguments", .array (exprsToJson arguments))]) s
  | .conditional test consequent alternate s =>
    .expression "Ternary"
      (.object [("condition", test.toJson), ("consequent", consequent.toJson),
        ("alternate", alternate.toJson)]) s
  | .object properties s => .expression "Object" (.array (propertiesToJson properties)) s
  | .array items s => .expression "Array" (.array (exprsToJson items)) s
  | .arrow params body s =>
    .expression "Arrow" (.object [("params", namesToJson params), ("body", body.toJson)]) s
  | .assignment target op value s =>
    .expression "Assignment"
      (.object [("target", target.toJson), ("op", .string op.tag), ("value", value.toJson)]) s

/-- The documents of expressions. -/
def exprsToJson : List Expr → List Json
  | [] => []
  | e :: rest => e.toJson :: exprsToJson rest

/-- The document of an expression that may be missing. -/
def exprToJson? : Option Expr → Json
  | none => .null
  | some e => e.toJson

/-- The documents of the properties of an object. -/
def propertiesToJson : List Property → List Json
  | [] => []
  | ⟨key, value, shorthand⟩ :: rest =>
    .object [("key", .string key), ("value", value.toJson), ("shorthand", .bool shorthand)] ::
      propertiesToJson rest

/-- The document of the body of an arrow function. -/
def ArrowBody.toJson : ArrowBody → Json
  | .expression value => .object [("Expression", value.toJson)]
  | .block body => .object [("Block", .array (stmtsToJson body))]

/-- The document of a statement. -/
def Stmt.toJson : Stmt → Json
  | .expression value => .tagged "Expression" [("expression", value.toJson)]
  | .declaration kind declarators =>
    .tagged "VariableDeclaration"
      [("kind", .string kind.keyword.spelling),
        ("declarations", .array (declaratorsToJson declarators))]
  | .function name params body none =>
    .tagged "FunctionDeclaration"
      [("name", .string name), ("params", namesToJson params), ("body", .array (stmtsToJson body))]
  | .function name params body (some decorator) =>
    .tagged "FunctionDeclaration"
      [("name", .string name), ("params", namesToJson params), ("body", .array (stmtsToJson body)),
        ("decorator", .object decorator.members)]
  | .return_ value => .tagged "Return" [("argument", exprToJson? value)]
  | .if_ test consequent alternate =>
    .tagged "If"
      [("test", test.toJson), ("consequent", consequent.toJson), ("alternate", stmtToJson? alternate)]
  | .while_ test body => .tagged "While" [("test", test.toJson), ("body", body.toJson)]
  | .for_ init test update body =>
    .tagged "For"
      [("init", stmtToJson? init), ("test", exprToJson? test), ("update", exprToJson? update),
        ("body", body.toJson)]
  | .block body => .tagged "Block" [("body", .array (stmtsToJson body))]
  | .break_ => .tagged "Break" []
  | .continue_ => .tagged "Continue" []
  | .import_ defaultName specifiers source =>
    .tagged "Import"
      [("default", .ofOption .string defaultName),
        ("specifiers", .array (specifiers.map ImportSpecifier.toJson)), ("source", .string source)]
  | .export_ declared => .tagged "Export" [("declaration", declared.toJson)]
  | .empty => .tagged "Empty" []
  | .elementStart name attributes s =>
    .tagged "ElementStart"
      [("name", .string name), ("attributes", .array (attributesToJson attributes)),
        ("span", s.toJson)]
  | .elementEnd name s => .tagged "ElementEnd" [("name", .string name), ("span", s.toJson)]
  | .element name attributes s =>
    .tagged "Element"
      [("name", .string name), ("attributes", .array (attributesToJson attributes)),
        ("span", s.toJson)]
  | .decorator value => .tagged "Decorator" value.members

/-- The documents of statements. -/
def stmtsToJson : List Stmt → List Json
  | [] => []
  | s :: rest => s.toJson :: stmtsToJson rest

/-- The document of a statement that may be missing. -/
def stmtToJson? : Option Stmt → Json
  | none => .null
  | some s => s.toJson

/-- The documents of declared variables. -/
def declaratorsToJson : List Declarator → List Json
  | [] => []
  | ⟨name, init⟩ :: rest =>
    .object [("name", .string name), ("init", exprToJson? init)] :: declaratorsToJson rest

/-- The documents of the attributes of a tag. -/
def attributesToJson : List Attribute → List Json
  | [] => []
  | .bare name :: rest => .object [("name", .string name)] :: attributesToJson rest
  | .text name value :: rest =>
    .object [("name", .string name), ("value", .string value)] :: attributesToJson rest
  | .braced name value :: rest =>
    .object [("name", .string name), ("value", value.toJson)] :: attributesToJson rest

/-- The members of the document of a decorator. -/
def Decorator.members : Decorator → List (String × Json)
  | ⟨name, arguments, span⟩ =>
    [("name", .string name), ("arguments", .array (exprsToJson arguments)), ("span", span.toJson)]

end

/-- The document of a decorator on its own. -/
def Decorator.toJson (d : Decorator) : Json := .object d.members

/-- The document of a program. -/
def Program.toJson (p : Program) : Json := .object [("body", .array (stmtsToJson p.body))]

end MarkupScript
