import MarkupScript.Text.Quoted
import MarkupScript.Token.Scan
import MarkupScript.Tree.Basic

/-!
# Printing programs

A program is printed with one statement on a line, four spaces for each level of nesting, strings
in double quotes, and only those parentheses that the grammar needs. Markup is printed as markup,
so that every program has a text.

Each expression has a level, which tells how tightly it holds together. Where an expression of a
looser level stands in a place for tighter ones, it is put in parentheses.
-/

namespace MarkupScript

/-! ### Levels -/

namespace Level

/-- Anything. -/
def any : Nat := 0

/-- Assignments and arrow functions. -/
def assignment : Nat := 1

/-- Conditionals. -/
def conditional : Nat := 2

/-- Binary operators, by precedence. -/
def binary (op : BinaryOp) : Nat := conditional + op.precedence

/-- Operators in front of an operand. -/
def unary : Nat := 10

/-- Operators behind an operand. -/
def afterOperand : Nat := 11

/-- Members and calls. -/
def call : Nat := 12

/-- Names, literals, and all that has brackets of its own. -/
def primary : Nat := 13

end Level

namespace Expr

/-- The level of an expression. -/
def level : Expr → Nat
  | assignment _ _ _ _ | arrow _ _ _ => Level.assignment
  | conditional _ _ _ _ => Level.conditional
  | binary _ op _ _ => Level.binary op
  | unary _ _ _ => Level.unary
  | update _ inFront _ _ => if inFront then Level.unary else Level.afterOperand
  | member _ _ _ _ _ | call _ _ _ | new _ _ _ => Level.call
  | _ => Level.primary

/-- Whether an expression joins truth values. -/
def isLogical : Expr → Bool
  | binary _ op _ _ => op.isLogical
  | _ => false

/-- Whether an expression is a number. -/
def isNumber : Expr → Bool
  | number _ _ => true
  | _ => false

/-- Whether an expression is a call. -/
def isCall : Expr → Bool
  | call _ _ _ => true
  | _ => false

end Expr

/-! ### Pieces of text -/

/-- A text in parentheses, if it needs them. -/
def parenthesisedIf (needed : Bool) (text : String) : String :=
  if needed then "(" ++ text ++ ")" else text

/-- The text of an expression in a place for the level `least` or tighter ones. -/
def Expr.inPlace (e : Expr) (least : Nat) (text : String) : String :=
  parenthesisedIf (e.level < least) text

/-- Whether a text starts with a character. -/
def startsWithChar (text : String) (c : Char) : Bool := text.front? == some c

/-- A text in parentheses if it starts with a brace, which would open a block in its place. -/
def guardBrace (text : String) : String := parenthesisedIf (startsWithChar text '{') text

/-- The spaces in front of a line. -/
def indentation (indent : Nat) : String := String.ofList (List.replicate (4 * indent) ' ')

/-- A line end, and the spaces in front of the next line. -/
def lineBreak (indent : Nat) : String := "\n" ++ indentation indent

/-- Texts with commas between them. -/
def commaSeparated (texts : List String) : String := String.intercalate ", " texts

/-- Whether a text can stand as an identifier. -/
def isIdentifierText (text : String) : Bool :=
  match text.toList with
  | [] => false
  | c :: cs => isIdentifierStart c && cs.all isIdentifierPart

/-- The key of a property, quoted unless it can stand as an identifier. -/
def keyText (key : String) : String := if isIdentifierText key then key else Text.quote key

/-- A unary operator in front of the text of its operand. A space keeps the two apart where they
would read as one token. -/
def unaryText (op : UnaryOp) (operand : String) : String :=
  let apart :=
    match op with
    | .typeof_ => true
    | .not => startsWithChar operand '!'
    | .negate => startsWithChar operand '-'
    | .plus => startsWithChar operand '+'
  if apart then op.spelling ++ " " ++ operand else op.spelling ++ operand

/-- A member behind the text of its object. -/
def memberText (object property : String) (computed optional : Bool) : String :=
  match computed, optional with
  | true, true => object ++ "?.[" ++ property ++ "]"
  | true, false => object ++ "[" ++ property ++ "]"
  | false, true => object ++ "?." ++ property
  | false, false => object ++ "." ++ property

/-- The text of an imported name. -/
def ImportSpecifier.print (s : ImportSpecifier) : String :=
  if s.imported = s.localName then s.localName else s.imported ++ " as " ++ s.localName

/-- The text of an import. -/
def importText (defaultName : Option String) (specifiers : List ImportSpecifier)
    (source : String) : String :=
  let named :=
    if specifiers.isEmpty then []
    else ["\x7b " ++ commaSeparated (specifiers.map ImportSpecifier.print) ++ " \x7d"]
  let clauses := defaultName.toList ++ named
  if clauses.isEmpty then "import " ++ Text.quote source ++ ";"
  else "import " ++ commaSeparated clauses ++ " from " ++ Text.quote source ++ ";"

/-- Whether a statement is a block. -/
def Stmt.isBlock : Stmt → Bool
  | .block _ => true
  | _ => false

/-- Whether a statement is an `if`. -/
def Stmt.isIf : Stmt → Bool
  | .if_ _ _ _ => true
  | _ => false

/-- The indentation of a statement inside `if`, `while` or `for`: a block stays on the line, and
anything else goes to a line of its own. -/
def Stmt.clauseIndent (indent : Nat) (s : Stmt) : Nat := if s.isBlock then indent else indent + 1

/-- The text between the head of `if`, `while` or `for` and the statement inside. -/
def Stmt.clauseLead (indent : Nat) (s : Stmt) : String :=
  if s.isBlock then " " else lineBreak (indent + 1)

/-- A text in braces, or empty braces. -/
def blockText (indent : Nat) (lines : String) : String :=
  if lines.isEmpty then "\x7b\x7d" else "\x7b\n" ++ lines ++ indentation indent ++ "\x7d"

/-! ### Expressions and statements -/

mutual

/-- The text of an expression on a line with some indentation. -/
def Expr.print (indent : Nat) : Expr → String
  | .number value _ => value.literal
  | .string value _ => Text.quote value
  | .boolean value _ => if value then "true" else "false"
  | .null _ => "null"
  | .this_ _ => "this"
  | .identifier name _ => name
  | .binary left op right _ =>
    -- `??` does not stand next to `&&` or `||` without parentheses.
    let mixed := op == .nullish
    let leftText := left.inPlace (Level.binary op) (left.print indent)
    let rightText := right.inPlace (Level.binary op + 1) (right.print indent)
    parenthesisedIf (mixed && left.isLogical) leftText ++ " " ++ op.symbol.spelling ++ " " ++
      parenthesisedIf (mixed && right.isLogical) rightText
  | .unary op operand _ => unaryText op (operand.inPlace Level.unary (operand.print indent))
  | .update op inFront operand _ =>
    if inFront then op.symbol.spelling ++ operand.inPlace Level.unary (operand.print indent)
    else operand.inPlace Level.call (operand.print indent) ++ op.symbol.spelling
  | .member object property computed optional _ =>
    memberText
      (parenthesisedIf object.isNumber (object.inPlace Level.call (object.print indent)))
      (property.inPlace Level.any (property.print indent)) computed optional
  | .call callee arguments _ =>
    callee.inPlace Level.call (callee.print indent) ++
      "(" ++ commaSeparated (printExprs indent arguments) ++ ")"
  | .new callee arguments _ =>
    "new " ++
      parenthesisedIf callee.isCall (callee.inPlace Level.call (callee.print indent)) ++
      "(" ++ commaSeparated (printExprs indent arguments) ++ ")"
  | .conditional test consequent alternate _ =>
    test.inPlace (Level.conditional + 1) (test.print indent) ++ " ? " ++
      consequent.inPlace Level.assignment (consequent.print indent) ++ " : " ++
      alternate.inPlace Level.assignment (alternate.print indent)
  | .object properties _ =>
    if properties.isEmpty then "\x7b\x7d"
    else "\x7b " ++ commaSeparated (printProperties indent properties) ++ " \x7d"
  | .array items _ => "[" ++ commaSeparated (printExprs indent items) ++ "]"
  | .arrow params body _ => "(" ++ commaSeparated params ++ ") => " ++ body.print indent
  | .assignment target op value _ =>
    target.inPlace Level.call (target.print indent) ++ " " ++ op.symbol.spelling ++ " " ++
      value.inPlace Level.assignment (value.print indent)

/-- The texts of expressions in a list. -/
def printExprs (indent : Nat) : List Expr → List String
  | [] => []
  | e :: rest => e.inPlace Level.assignment (e.print indent) :: printExprs indent rest

/-- The texts of the properties of an object. -/
def printProperties (indent : Nat) : List Property → List String
  | [] => []
  | ⟨key, value, shorthand⟩ :: rest =>
    (if shorthand then key
      else keyText key ++ ": " ++ value.inPlace Level.assignment (value.print indent)) ::
      printProperties indent rest

/-- The text of the body of an arrow function. -/
def ArrowBody.print (indent : Nat) : ArrowBody → String
  | .expression value => guardBrace (value.inPlace Level.assignment (value.print indent))
  | .block body => blockText indent (printLines (indent + 1) body)

/-- The text of a statement, from its first character to its last. -/
def Stmt.print (indent : Nat) : Stmt → String
  | .expression value => guardBrace (value.inPlace Level.any (value.print indent)) ++ ";"
  | .declaration kind declarators =>
    kind.keyword.spelling ++ " " ++ commaSeparated (printDeclarators indent declarators) ++ ";"
  | .function name params body decorator =>
    printDecorator? indent decorator ++ "function " ++ name ++ "(" ++ commaSeparated params ++
      ") " ++ blockText indent (printLines (indent + 1) body)
  | .return_ none => "return;"
  | .return_ (some value) => "return " ++ value.inPlace Level.any (value.print indent) ++ ";"
  | .if_ test consequent alternate =>
    "if (" ++ test.inPlace Level.any (test.print indent) ++ ")" ++
      consequent.clauseLead indent ++ consequent.print (consequent.clauseIndent indent) ++
      printElse indent (if consequent.isBlock then " " else lineBreak indent) alternate
  | .while_ test body =>
    "while (" ++ test.inPlace Level.any (test.print indent) ++ ")" ++
      body.clauseLead indent ++ body.print (body.clauseIndent indent)
  | .for_ init test update body =>
    "for (" ++ printForInit indent init ++ ";" ++ printForPart indent test ++ ";" ++
      printForPart indent update ++ ")" ++
      body.clauseLead indent ++ body.print (body.clauseIndent indent)
  | .block body => blockText indent (printLines (indent + 1) body)
  | .break_ => "break;"
  | .continue_ => "continue;"
  | .import_ defaultName specifiers source => importText defaultName specifiers source
  | .export_ declared => "export " ++ declared.print indent
  | .empty => ";"
  | .elementStart name attributes _ => "<" ++ name ++ printAttributes indent attributes ++ ">"
  | .elementEnd name _ => "</" ++ name ++ ">"
  | .element name attributes _ => "<" ++ name ++ printAttributes indent attributes ++ "/>"
  | .decorator value => value.print indent

/-- The lines of statements. -/
def printLines (indent : Nat) : List Stmt → String
  | [] => ""
  | s :: rest => indentation indent ++ s.print indent ++ "\n" ++ printLines indent rest

/-- The part of an `if` from the word `else` on, with `lead` in front of it. -/
def printElse (indent : Nat) (lead : String) : Option Stmt → String
  | none => ""
  | some s =>
    lead ++ "else" ++
      (if s.isIf then " " else s.clauseLead indent) ++
      s.print (if s.isIf then indent else s.clauseIndent indent)

/-- The first part of the head of a `for`. Only variables and expressions stand there. -/
def printForInit (indent : Nat) : Option Stmt → String
  | some (.declaration kind declarators) =>
    kind.keyword.spelling ++ " " ++ commaSeparated (printDeclarators indent declarators)
  | some (.expression value) => value.inPlace Level.any (value.print indent)
  | _ => ""

/-- The second or third part of the head of a `for`. -/
def printForPart (indent : Nat) : Option Expr → String
  | none => ""
  | some e => " " ++ e.inPlace Level.any (e.print indent)

/-- The texts of declared variables. -/
def printDeclarators (indent : Nat) : List Declarator → List String
  | [] => []
  | ⟨name, none⟩ :: rest => name :: printDeclarators indent rest
  | ⟨name, some init⟩ :: rest =>
    (name ++ " = " ++ init.inPlace Level.assignment (init.print indent)) ::
      printDeclarators indent rest

/-- The text of the attributes of a tag, each with a space in front. -/
def printAttributes (indent : Nat) : List Attribute → String
  | [] => ""
  | .bare name :: rest => " " ++ name ++ printAttributes indent rest
  | .text name value :: rest =>
    " " ++ name ++ "=" ++ Text.quote value ++ printAttributes indent rest
  | .braced name value :: rest =>
    " " ++ name ++ "=\x7b" ++ value.inPlace Level.any (value.print indent) ++ "\x7d" ++
      printAttributes indent rest

/-- The text of a decorator. -/
def Decorator.print (indent : Nat) : Decorator → String
  | ⟨name, arguments, _⟩ => "@" ++ name ++ "(" ++ commaSeparated (printExprs indent arguments) ++ ")"

/-- The decorator of a function, on a line of its own. -/
def printDecorator? (indent : Nat) : Option Decorator → String
  | none => ""
  | some d => d.print indent ++ lineBreak indent

end

/-- The text of a program. -/
def Program.print (p : Program) : String := printLines 0 p.body

end MarkupScript
