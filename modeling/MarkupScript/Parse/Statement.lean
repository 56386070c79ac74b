import MarkupScript.Parse.Expression
import MarkupScript.Token.Scan

/-!
# Parsing statements and programs

A statement is told by its first token. Tags and decorators are statements too; a tag that ends an
element needs one that is open in the same function.

`Rules.nested` ties the rules together: at depth `n` the parts of a construct are parsed at depth
`n - 1`. Every part comes behind a token of its own construct, so that the number of tokens is
always depth enough.
-/

namespace MarkupScript

namespace Parse

/-! ### Markup -/

/-- An attribute of a tag. -/
def tagAttribute (rules : Rules) : Parse Attribute := do
  let name ← name .attributeName
  if ← eat (.symbol .assign) then
    match ← peekKind with
    | .string value =>
      advance
      return .text name value
    | .symbol .leftBrace =>
      advance
      let value ← rules.expression
      expectSymbol .rightBrace
      return .braced name value
    | kind => fail (.attributeValue name kind)
  else
    return .bare name

/-- What follows the name in a tag that starts an element, or is an element of its own. -/
def startTag (rules : Rules) (start : Span) (name : String) : Parse Stmt := do
  let attributes ←
    itemsWhile (fun k => k != .symbol .tagEnd && k != .symbol .slash) (tagAttribute rules)
  if ← eat (.symbol .slash) then
    expectSymbol .tagEnd
    return .element name attributes (← spanFrom start)
  else
    expectSymbol .tagEnd
    modify fun s => { s with elements := name :: s.elements }
    return .elementStart name attributes (← spanFrom start)

/-- What follows the slash in a tag that ends an element. -/
def endTag (start : Span) : Parse Stmt := do
  let name ← name .tagName
  expectSymbol .tagEnd
  match (← get).elements with
  | [] => failAt start (.unopenedElement name)
  | _ :: outer =>
    modify fun s => { s with elements := outer }
    return .elementEnd name (← spanFrom start)

/-- A tag. -/
def tag (rules : Rules) : Parse Stmt := do
  let start := (← peek).span
  expectSymbol .tagStart
  match ← peekKind with
  | .name name =>
    advance
    startTag rules start name
  | .symbol .slash =>
    advance
    endTag start
  | _ => failExpecting .tagNameOrSlash

/-- The name and arguments of the decorator that an expression spells. -/
def decoratorParts? : Expr → Option (String × List Expr)
  | .call (.identifier name _) arguments _ => some (name, arguments)
  | .identifier name _ => some (name, [])
  | _ => none

/-- A decorator. -/
def decorator (rules : Rules) : Parse Stmt := do
  let start := (← peek).span
  expectSymbol .decorator
  let e ← rules.expression
  match decoratorParts? e with
  | none => failAt start .decoratorForm
  | some (name, arguments) =>
    let _ ← eat (.symbol .semicolon)
    return .decorator ⟨name, arguments, ← spanFrom start⟩

/-! ### Declarations -/

/-- A declared variable, with its first value or without. -/
def declarator (rules : Rules) : Parse Declarator := do
  let name ← identifier
  if ← eat (.symbol .assign) then
    return ⟨name, some (← expression rules)⟩
  else
    return ⟨name, none⟩

/-- Variables of a kind; the next token is the word that declares them. -/
def declaration (rules : Rules) (kind : VariableKind) : Parse Stmt := do
  advance
  return .declaration kind (← commaItems (declarator rules))

/-- Variables of a kind, and the end of the statement. -/
def declarationStatement (rules : Rules) (kind : VariableKind) : Parse Stmt := do
  let declared ← declaration rules kind
  semicolon
  return declared

/-- A function. -/
def function (rules : Rules) : Parse Stmt := do
  expect (.keyword .function_)
  let name ← identifier
  let params ← params
  let body ← functionBody rules
  return .function name params body none

/-- Takes an identifier that is a given word, and tells whether it came. -/
def eatWord (text : String) : Parse Bool := eat (.identifier text)

/-- A name taken from a module, with another name behind `as` or without. -/
def importSpecifier : Parse ImportSpecifier := do
  let imported ← word .word
  if ← eatWord "as" then
    return ⟨imported, ← identifier⟩
  else
    return ⟨imported, imported⟩

/-- The names taken from a module, in braces. -/
def importSpecifiers : Parse (List ImportSpecifier) := do
  expectSymbol .leftBrace
  commaList .rightBrace importSpecifier

/-- The module that names are taken from, behind `from`, and the end of the statement. -/
def importSource (defaultName : Option String) (specifiers : List ImportSpecifier) :
    Parse Stmt := do
  unless ← eatWord "from" do
    failExpecting .from_
  match ← peekKind with
  | .string source =>
    advance
    semicolon
    return .import_ defaultName specifiers source
  | _ => failExpecting .moduleName

/-- An import: of a module alone, of its default, of names, or of the default and names. -/
def import_ : Parse Stmt := do
  advance
  match ← peekKind with
  | .string source =>
    advance
    semicolon
    return .import_ none [] source
  | .identifier name =>
    advance
    let specifiers ← if ← eat (.symbol .comma) then importSpecifiers else pure []
    importSource (some name) specifiers
  | _ => importSource none (← importSpecifiers)

/-- An export of a function or of variables. -/
def export_ (rules : Rules) : Parse Stmt := do
  advance
  match ← peekKind with
  | .keyword .function_ => return .export_ (← function rules)
  | kind =>
    match VariableKind.ofKind? kind with
    | some variableKind => return .export_ (← declarationStatement rules variableKind)
    | none => failExpecting .declaration

/-! ### Control flow -/

/-- A return, with a value or without. -/
def return_ (rules : Rules) : Parse Stmt := do
  advance
  let token ← peek
  if token.kind == .symbol .semicolon || mayEndStatement token then
    semicolon
    return .return_ none
  else
    let value ← expression rules
    semicolon
    return .return_ (some value)

/-- A choice between one statement and another, or none. -/
def if_ (rules : Rules) : Parse Stmt := do
  advance
  let test ← parenthesised rules
  let consequent ← rules.statement
  if ← eat (.keyword .else_) then
    return .if_ test consequent (some (← rules.statement))
  else
    return .if_ test consequent none

/-- A loop with a test. -/
def while_ (rules : Rules) : Parse Stmt := do
  advance
  let test ← parenthesised rules
  return .while_ test (← rules.statement)

/-- What a loop starts with: nothing, variables or an expression. -/
def forInit (rules : Rules) : Parse (Option Stmt) := do
  let kind ← peekKind
  if kind == .symbol .semicolon then
    return none
  match VariableKind.ofKind? kind with
  | some variableKind => return some (← declaration rules variableKind)
  | none => return some (.expression (← expression rules))

/-- An expression, unless the mark that ends it comes first. -/
def expressionBefore (rules : Rules) (stop : Symbol) : Parse (Option Expr) := do
  if ← check (.symbol stop) then
    return none
  else
    return some (← expression rules)

/-- A loop with a start, a test and an update. -/
def for_ (rules : Rules) : Parse Stmt := do
  advance
  expectSymbol .leftParen
  let init ← forInit rules
  expectSymbol .semicolon
  let test ← expressionBefore rules .semicolon
  expectSymbol .semicolon
  let update ← expressionBefore rules .rightParen
  expectSymbol .rightParen
  return .for_ init test update (← rules.statement)

/-- A statement that is one word. -/
def wordStatement (s : Stmt) : Parse Stmt := do
  advance
  semicolon
  return s

/-- An expression as a statement. -/
def expressionStatement (rules : Rules) : Parse Stmt := do
  let value ← expression rules
  semicolon
  return .expression value

/-- A statement. -/
def statement (rules : Rules) : Parse Stmt := do
  match ← peekKind with
  | .symbol .tagStart => tag rules
  | .symbol .decorator => decorator rules
  | .symbol .leftBrace => return .block (← block rules)
  | .symbol .semicolon =>
    advance
    return .empty
  | .keyword .let_ => declarationStatement rules .let_
  | .keyword .const_ => declarationStatement rules .const_
  | .keyword .var_ => declarationStatement rules .var_
  | .keyword .function_ => function rules
  | .keyword .return_ => return_ rules
  | .keyword .if_ => if_ rules
  | .keyword .while_ => while_ rules
  | .keyword .for_ => for_ rules
  | .keyword .break_ => wordStatement .break_
  | .keyword .continue_ => wordStatement .continue_
  | .keyword .import_ => import_
  | .keyword .export_ => export_ rules
  | _ => expressionStatement rules

end Parse

/-! ### Tying the rules together -/

/-- The rules for constructs that nest at most `n` deep. -/
def Rules.nested : Nat → Rules
  | 0 => ⟨Parse.fail .nesting, Parse.fail .nesting, Parse.fail .nesting⟩
  | n + 1 =>
    { expression := fun s => Parse.expression (nested n) s
      operand := fun s => Parse.operand (nested n) s
      statement := fun s => Parse.statement (nested n) s }

namespace Parse

/-- The rules for all constructs that fit into a stream. -/
def rulesFor (s : Stream) : Rules := .nested (s.ahead.length + 1)

/-- Parses an expression from any stream. -/
def anyExpression : Parse Expr := fun s => (rulesFor s).expression s

/-- Parses a statement from any stream. -/
def anyStatement : Parse Stmt := fun s => (rulesFor s).statement s

/-- Parses statements to the end of the input. -/
def program : Parse Program := do
  return ⟨← itemsWhile (· != .endOfInput) anyStatement⟩

end Parse

/-- Why a source is not a program. -/
inductive ParseError where
  | scan (error : ScanError)
  | grammar (error : SyntaxError)

/-- The full message. -/
def ParseError.message : ParseError → String
  | scan e => e.message
  | grammar e => e.message

/-- The program that a source spells. -/
def parse (source : String) : Except ParseError Program :=
  match tokenize source with
  | .error e => .error (.scan e)
  | .ok tokens =>
    match Parse.program (.ofTokens tokens) with
    | .ok p _ => .ok p
    | .error e _ => .error (.grammar e)

end MarkupScript
