import MarkupScript.Tree.Basic

/-!
# Streams of tokens

A parser takes tokens from the front of a stream. The stream also remembers the token taken last,
which tells where a construct ends, and the elements that are open at this point of the program.

A parser that fails leaves the stream where it noticed the failure, so that reading can go on from
there.
-/

namespace MarkupScript

/-- What a parser was looking for when it met another token. -/
inductive Expectation where
  | token (kind : Kind)
  | identifier
  | word
  | propertyName
  | propertyKey
  | tagNameOrSlash
  | tagName
  | attributeName
  | from_
  | moduleName
  | declaration

/-- Why tokens do not form a program. -/
inductive SyntaxError.Cause where
  | expected (what : Expectation) (found : Kind)
  /-- No expression starts with this token. -/
  | unexpected (found : Kind)
  /-- An attribute has a value that is neither a string nor braced. -/
  | attributeValue (name : String) (found : Kind)
  /-- No element is open where one ends. -/
  | unopenedElement (name : String)
  /-- A decorator is neither a name nor a call of a name. -/
  | decoratorForm
  | assignmentTarget
  | updateTarget
  /-- Constructs nest deeper than there are tokens, which no stream does. -/
  | nesting

/-- A failure to parse, with line and column of the token it is about. -/
structure SyntaxError where
  cause : SyntaxError.Cause
  line : Nat
  column : Nat

/-- What messages call an expectation. -/
def Expectation.describe : Expectation → String
  | token kind => kind.describe
  | identifier => "identifier"
  | word => "name"
  | propertyName => "property name"
  | propertyKey => "property key"
  | tagNameOrSlash => "tag name or '/'"
  | tagName => "tag name"
  | attributeName => "attribute name"
  | from_ => "'from'"
  | moduleName => "module name"
  | declaration => "declaration after 'export'"

namespace SyntaxError

/-- What a message says about a cause. -/
def Cause.message : Cause → String
  | expected what found => "Expected " ++ what.describe ++ ", got " ++ found.describe
  | unexpected found => "Unexpected " ++ found.describe ++ " in expression"
  | attributeValue name found =>
    "Value of attribute '" ++ name ++
      "' must be a quoted string or a braced expression, got " ++ found.describe
  | unopenedElement name => "Closing tag </" ++ name ++ "> has no matching opening tag"
  | decoratorForm => "Decorator must be a call or identifier"
  | assignmentTarget => "Invalid assignment target"
  | updateTarget => "Invalid increment/decrement target"
  | nesting => "Nested too deeply"

/-- The full message. -/
def message (e : SyntaxError) : String :=
  "Parse error at line " ++ toString e.line ++ ", column " ++ toString e.column ++ ": " ++
    e.cause.message

end SyntaxError

/-- A stream of tokens at some point of a program. -/
structure Stream where
  /-- The token taken last. -/
  behind : Option Token
  /-- The tokens to come. -/
  ahead : List Token
  /-- The names of the open elements, innermost first. -/
  elements : List String

/-- The stream before its first token. -/
def Stream.ofTokens (tokens : List Token) : Stream := ⟨none, tokens, []⟩

/-- What a stream shows behind its last token. -/
def Token.past : Token := ⟨.endOfInput, ⟨0, 0, 0, 0⟩, false⟩

/-- The next token. -/
def Stream.next (s : Stream) : Token := s.ahead.head?.getD .past

/-- The kind of the next token. -/
def Stream.kind (s : Stream) : Kind := s.next.kind

/-- A parser: it takes tokens from a stream and gives a result, or fails; either way it leaves a
stream. -/
abbrev Parse := EStateM SyntaxError Stream

namespace Parse

/-- The next token, which stays in the stream. -/
def peek : Parse Token := return (← get).next

/-- The kind of the next token, which stays in the stream. -/
def peekKind : Parse Kind := return (← get).kind

/-- Takes the next token, if there is one. -/
def advance : Parse Unit :=
  modify fun s =>
    match s.ahead with
    | [] => s
    | token :: rest => { s with behind := some token, ahead := rest }

/-- Fails for a reason that concerns the token at `span`. -/
def failAt (span : Span) (cause : SyntaxError.Cause) : Parse α :=
  throw ⟨cause, span.line, span.column⟩

/-- Fails for a reason that concerns the next token. -/
def fail (cause : SyntaxError.Cause) : Parse α := do
  failAt (← peek).span cause

/-- Fails because the next token is not what was expected. -/
def failExpecting (what : Expectation) : Parse α := do
  fail (.expected what (← peekKind))

/-- The stretch of source from `start` to the end of the token taken last. -/
def spanFrom (start : Span) : Parse Span := do
  let stop := ((← get).behind.map (·.span.stop)).getD start.stop
  return { start with stop := stop }

/-- Whether the next token is of a kind. -/
def check (kind : Kind) : Parse Bool := return (← peekKind) == kind

/-- Takes the next token if it is of a kind, and tells whether it was. -/
def eat (kind : Kind) : Parse Bool := do
  if ← check kind then
    advance
    return true
  else
    return false

/-- Takes the next token, which has to be of a kind. -/
def expect (kind : Kind) : Parse Unit := do
  unless ← eat kind do
    failExpecting (.token kind)

/-- Takes a mark. -/
def expectSymbol (mark : Symbol) : Parse Unit := expect (.symbol mark)

/-- Takes an identifier. -/
def identifier : Parse String := do
  match ← peekKind with
  | .identifier name =>
    advance
    return name
  | _ => failExpecting .identifier

/-- Takes any word, keywords included, where messages call it `what`. -/
def word (what : Expectation) : Parse String := do
  match (← peekKind).word? with
  | some text =>
    advance
    return text
  | none => failExpecting what

/-- Takes the name of a tag or attribute. -/
def name (what : Expectation) : Parse String := do
  match ← peekKind with
  | .name text =>
    advance
    return text
  | _ => failExpecting what

/-- Whether a statement may end before the next token without a semicolon: at the end of a line, of
the input or of a block, or where a tag starts. -/
def mayEndStatement (token : Token) : Bool :=
  token.newlineBefore || token.kind == .endOfInput || token.kind == .symbol .rightBrace ||
    token.kind == .symbol .tagStart

/-- Takes the semicolon that ends a statement, or nothing where a statement may end without. -/
def semicolon : Parse Unit := do
  if ← eat (.symbol .semicolon) then return
  if mayEndStatement (← peek) then return
  failExpecting (.token (.symbol .semicolon))

/-- A budget for a loop that takes at least one token each time. -/
def budget : Parse Nat := return (← get).ahead.length + 1

/-- Parses items as long as the next token is of a kind that goes on. -/
def itemsWhile (goesOn : Kind → Bool) (item : Parse α) : Parse (List α) := do
  loop (← budget)
where
  /-- Parses at most `n` items. -/
  loop : Nat → Parse (List α)
    | 0 => fail .nesting
    | n + 1 => do
      if goesOn (← peekKind) then
        let first ← item
        let rest ← loop n
        return first :: rest
      else
        return []

/-- Parses items with commas between them, up to a closing mark, which it takes. A comma may also
stand behind the last item. -/
def commaList (close : Symbol) (item : Parse α) : Parse (List α) := do
  let items ← loop (← budget)
  expectSymbol close
  return items
where
  /-- Parses at most `n` items. -/
  loop : Nat → Parse (List α)
    | 0 => fail .nesting
    | n + 1 => do
      if ← check (.symbol close) then
        return []
      let first ← item
      if ← eat (.symbol .comma) then
        let rest ← loop n
        return first :: rest
      else
        return [first]

/-- Parses one or more items with commas between them. -/
def commaItems (item : Parse α) : Parse (List α) := do
  loop (← budget)
where
  /-- Parses at most `n` items. -/
  loop : Nat → Parse (List α)
    | 0 => fail .nesting
    | n + 1 => do
      let first ← item
      if ← eat (.symbol .comma) then
        let rest ← loop n
        return first :: rest
      else
        return [first]

/-- Parses with no element open, and afterwards, whatever the outcome, has the elements open that
were before. -/
def withoutElements (inner : Parse α) : Parse α := fun s =>
  match inner { s with elements := [] } with
  | .ok a s' => .ok a { s' with elements := s.elements }
  | .error e s' => .error e { s' with elements := s.elements }

end Parse

end MarkupScript
