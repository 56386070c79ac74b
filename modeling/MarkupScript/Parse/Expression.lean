import MarkupScript.Parse.Stream

/-!
# Parsing expressions

From loose to tight: assignments and arrow functions, conditionals, binary operators by precedence,
unary operators, postfix operators, calls and members, and primary expressions.

Expressions contain expressions and, in the bodies of arrow functions, statements. Each rule here
takes the parsers of its parts, `Rules`, as an argument. A rule hands over to them only after it
has taken a token itself.
-/

namespace MarkupScript

/-- The parsers that the rules use for the parts of a construct. -/
structure Rules where
  expression : Parse Expr
  /-- An operand of a binary operator. -/
  operand : Parse Expr
  statement : Parse Stmt

namespace Parse

/-! ### Arrow functions -/

/-- Whether the parenthesis that `depth` open ones end with is followed by an arrow. -/
def arrowAfterParens : Nat → List Token → Bool
  | _, [] => false
  | depth, token :: rest =>
    match token.kind with
    | .symbol .leftParen => arrowAfterParens (depth + 1) rest
    | .symbol .rightParen =>
      if depth ≤ 1 then rest.head?.any (·.kind == .symbol .arrow)
      else arrowAfterParens (depth - 1) rest
    | .endOfInput => false
    | _ => arrowAfterParens depth rest

/-- Whether an arrow function comes next: a name and an arrow, or a parenthesis whose partner is
followed by an arrow. -/
def arrowAhead (s : Stream) : Bool :=
  match s.kind with
  | .identifier _ => (s.ahead[1]?).any (·.kind == .symbol .arrow)
  | .symbol .leftParen => arrowAfterParens 0 s.ahead
  | _ => false

/-- The parameters of a function, in parentheses. -/
def params : Parse (List String) := do
  expectSymbol .leftParen
  commaList .rightParen identifier

/-- The statements of a block, in braces. -/
def block (rules : Rules) : Parse (List Stmt) := do
  expectSymbol .leftBrace
  let body ← itemsWhile (fun k => k != .symbol .rightBrace && k != .endOfInput) rules.statement
  expectSymbol .rightBrace
  return body

/-- The body of a function, which starts with no element open. -/
def functionBody (rules : Rules) : Parse (List Stmt) := withoutElements (block rules)

/-- An arrow function. -/
def arrow (rules : Rules) : Parse Expr := do
  let start := (← peek).span
  let params ← if ← check (.symbol .leftParen) then params else pure [← identifier]
  expectSymbol .arrow
  let body ←
    if ← check (.symbol .leftBrace) then ArrowBody.block <$> functionBody rules
    else ArrowBody.expression <$> rules.expression
  return .arrow params body (← spanFrom start)

/-! ### Primary expressions -/

/-- The arguments of a call, in parentheses. -/
def arguments (rules : Rules) : Parse (List Expr) := do
  expectSymbol .leftParen
  commaList .rightParen rules.expression

/-- A list of items, in brackets. -/
def array (rules : Rules) : Parse Expr := do
  let start := (← peek).span
  expectSymbol .leftBracket
  let items ← commaList .rightBracket rules.expression
  return .array items (← spanFrom start)

/-- The text of the key that a token is, if it can be one. -/
def propertyKey? : Kind → Option String
  | .string value => some value
  | .number value => some value.plain
  | kind => kind.word?

/-- A property of an object: a key with its value, or a variable in shorthand. -/
def property (rules : Rules) : Parse Property := do
  let token ← peek
  match propertyKey? token.kind with
  | none => failExpecting .propertyKey
  | some key =>
    advance
    if ← eat (.symbol .colon) then
      return ⟨key, ← rules.expression, false⟩
    match token.kind with
    | .identifier name => return ⟨name, .identifier name token.span, true⟩
    | _ => failExpecting (.token (.symbol .colon))

/-- An object, in braces. -/
def object (rules : Rules) : Parse Expr := do
  let start := (← peek).span
  expectSymbol .leftBrace
  let properties ← commaList .rightBrace (property rules)
  return .object properties (← spanFrom start)

/-- An expression in parentheses. -/
def parenthesised (rules : Rules) : Parse Expr := do
  expectSymbol .leftParen
  let inner ← rules.expression
  expectSymbol .rightParen
  return inner

/-- The expression that a single token stands for. -/
def atom? (token : Token) : Option Expr :=
  match token.kind with
  | .number value => some (.number value token.span)
  | .string value => some (.string value token.span)
  | .boolean value => some (.boolean value token.span)
  | .null => some (.null token.span)
  | .keyword .this_ => some (.this_ token.span)
  | .identifier name => some (.identifier name token.span)
  | _ => none

/-- A literal, a name, or anything in brackets of its own. -/
def primary (rules : Rules) : Parse Expr := do
  let token ← peek
  match atom? token with
  | some e =>
    advance
    return e
  | none =>
    match token.kind with
    | .symbol .leftParen => parenthesised rules
    | .symbol .leftBracket => array rules
    | .symbol .leftBrace => object rules
    | kind => fail (.unexpected kind)

/-! ### Calls and members -/

/-- The name behind a dot, which may be any word. -/
def propertyName : Parse Expr := do
  let span := (← peek).span
  return .identifier (← word .propertyName) span

/-- The callee of `new` goes on with names behind dots. -/
def newCallee (start : Span) : Nat → Expr → Parse Expr
  | 0, _ => fail .nesting
  | n + 1, callee => do
    if ← eat (.symbol .dot) then
      let property ← propertyName
      newCallee start n (.member callee property false false (← spanFrom start))
    else
      return callee

/-- `new`, a callee and the arguments, which may be left out. -/
def new (rules : Rules) : Parse Expr := do
  let start := (← peek).span
  advance
  let callee ← newCallee start (← budget) (← primary rules)
  let arguments ← if ← check (.symbol .leftParen) then arguments rules else pure []
  return .new callee arguments (← spanFrom start)

/-- An expression goes on with members and calls. -/
def chain (rules : Rules) (start : Span) : Nat → Expr → Parse Expr
  | 0, _ => fail .nesting
  | n + 1, e => do
    match ← peekKind with
    | .symbol .dot =>
      advance
      let property ← propertyName
      chain rules start n (.member e property false false (← spanFrom start))
    | .symbol .optionalChain =>
      advance
      let property ← propertyName
      chain rules start n (.member e property false true (← spanFrom start))
    | .symbol .leftBracket =>
      advance
      let property ← rules.expression
      expectSymbol .rightBracket
      chain rules start n (.member e property true false (← spanFrom start))
    | .symbol .leftParen =>
      let arguments ← arguments rules
      chain rules start n (.call e arguments (← spanFrom start))
    | _ => return e

/-- A primary expression with the members and calls that follow it. -/
def callMember (rules : Rules) : Parse Expr := do
  let start := (← peek).span
  let first ← if ← check (.keyword .new_) then new rules else primary rules
  chain rules start (← budget) first

/-! ### Operators -/

/-- Only a variable or property can be changed by one. -/
def checkUpdateTarget (e : Expr) : Parse Unit := do
  unless e.isTarget do
    fail .updateTarget

/-- An operand with an update operator behind it, if there is one on the same line. -/
def postfixed (rules : Rules) : Parse Expr := do
  let start := (← peek).span
  let operand ← callMember rules
  let token ← peek
  if token.newlineBefore then
    return operand
  match UpdateOp.ofKind? token.kind with
  | none => return operand
  | some op =>
    checkUpdateTarget operand
    advance
    return .update op false operand (← spanFrom start)

/-- An operand of a binary operator, with the operators in front of it. -/
def operand (rules : Rules) : Parse Expr := do
  let start := (← peek).span
  let kind ← peekKind
  match UnaryOp.ofKind? kind, UpdateOp.ofKind? kind with
  | some op, _ =>
    advance
    let inner ← rules.operand
    return .unary op inner (← spanFrom start)
  | none, some op =>
    advance
    let inner ← rules.operand
    checkUpdateTarget inner
    return .update op true inner (← spanFrom start)
  | none, none => postfixed rules

/-- An expression goes on with operators that bind tighter than `least`; `right` parses what stands
on the right of an operator with a given precedence. -/
def operators (right : Nat → Parse Expr) (start : Span) (least : Nat) : Nat → Expr → Parse Expr
  | 0, _ => fail .nesting
  | n + 1, left => do
    match BinaryOp.ofKind? (← peekKind) with
    | none => return left
    | some op =>
      if op.precedence ≤ least then
        return left
      advance
      let rightOperand ← right op.precedence
      operators right start least n (.binary left op rightOperand (← spanFrom start))

/-- Operands joined by operators that bind tighter than `least`, of which there are at most
`levels` precedences. -/
def climb (rules : Rules) : Nat → Nat → Parse Expr
  | 0, _ => operand rules
  | levels + 1, least => do
    let start := (← peek).span
    let first ← operand rules
    operators (climb rules levels) start least (← budget) first

/-- Operands joined by operators that bind tighter than `least`. -/
def binary (rules : Rules) (least : Nat) : Parse Expr :=
  climb rules (BinaryOp.maxPrecedence - least) least

/-- A condition with the two expressions it chooses from, or the first part alone. -/
def conditional (rules : Rules) : Parse Expr := do
  let start := (← peek).span
  let test ← binary rules 0
  if ← eat (.symbol .question) then
    let consequent ← rules.expression
    expectSymbol .colon
    let alternate ← rules.expression
    return .conditional test consequent alternate (← spanFrom start)
  else
    return test

/-- An expression: an arrow function, an assignment, or anything tighter. -/
def expression (rules : Rules) : Parse Expr := do
  if arrowAhead (← get) then
    arrow rules
  else
    let start := (← peek).span
    let target ← conditional rules
    match AssignOp.ofKind? (← peekKind) with
    | none => return target
    | some op =>
      unless target.isTarget do
        fail .assignmentTarget
      advance
      let value ← rules.expression
      return .assignment target op value (← spanFrom start)

end Parse

end MarkupScript
