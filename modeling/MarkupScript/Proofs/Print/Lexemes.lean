import MarkupScript.Proofs.Tree.WellFormed

/-!
# The tokens of a printed program

Printing has two halves that can be looked at apart: which tokens a program has, and how they are
laid out. `lexemes` gives the tokens. It follows `print` clause by clause, so that the parentheses
are the same, and leaves out spaces and line ends.

A lexeme is a token as far as a parser depends on it: its kind and, where that matters, that it
stands on the line of the token before it or on a new one.
-/

namespace MarkupScript

/-- A token as a parser sees it. -/
structure Lexeme where
  kind : Kind
  /-- Whether the token has to stand on the line of the token before it. -/
  sameLine : Bool := false
  /-- Whether a line has to end between the token and the one before it. -/
  newLine : Bool := false

namespace Lexeme

/-- A mark. -/
def mark (s : Symbol) : Lexeme := { kind := .symbol s }

/-- A keyword. -/
def keyword (k : Keyword) : Lexeme := { kind := .keyword k }

/-- A word, which may be an identifier or not. -/
def word (text : String) : Lexeme := { kind := .ofWord text }

/-- The name of a tag or attribute. -/
def name (text : String) : Lexeme := { kind := .name text }

/-- A string literal. -/
def string (value : String) : Lexeme := { kind := .string value }

/-- A token is as a lexeme says. -/
def Fits (l : Lexeme) (t : Token) : Prop :=
  t.kind = l.kind ∧ (l.sameLine = true → t.newlineBefore = false) ∧
    (l.newLine = true → t.newlineBefore = true)

end Lexeme

/-- The tokens `ahead` start with the lexemes, and `rest` is what follows. -/
def Shows : List Lexeme → (ahead rest : List Token) → Prop
  | [], ahead, rest => ahead = rest
  | l :: ls, ahead, rest => ∃ t ahead', ahead = t :: ahead' ∧ l.Fits t ∧ Shows ls ahead' rest

/-! ### Pieces -/

/-- Lexemes in parentheses, if they need them. -/
def lexemesParenthesisedIf (needed : Bool) (ls : List Lexeme) : List Lexeme :=
  if needed then .mark .leftParen :: ls ++ [.mark .rightParen] else ls

/-- The lexemes of an expression in a place for the level `least` or tighter ones. -/
def Expr.lexemesInPlace (e : Expr) (least : Nat) (ls : List Lexeme) : List Lexeme :=
  lexemesParenthesisedIf (e.level < least) ls

/-- Whether lexemes start with a brace. -/
def startsWithBrace : List Lexeme → Bool
  | { kind := .symbol .leftBrace, .. } :: _ => true
  | _ => false

/-- Lexemes in parentheses if they start with a brace. -/
def guardLexemes (ls : List Lexeme) : List Lexeme :=
  lexemesParenthesisedIf (startsWithBrace ls) ls

/-- Lexemes with commas between them. -/
def commaLexemes : List (List Lexeme) → List Lexeme
  | [] => []
  | [ls] => ls
  | ls :: rest => ls ++ .mark .comma :: commaLexemes rest

/-- Lexemes the first of which stands on the line of the token before it. -/
def onSameLine : List Lexeme → List Lexeme
  | [] => []
  | l :: ls => { l with sameLine := true } :: ls

/-- Lexemes the first of which stands on another line than the token before it. -/
def onNewLine : List Lexeme → List Lexeme
  | [] => []
  | l :: ls => { l with newLine := true } :: ls

/-- The lexeme of a unary operator. -/
def UnaryOp.lexeme : UnaryOp → Lexeme
  | not => .mark .not
  | negate => .mark .minus
  | plus => .mark .plus
  | typeof_ => .keyword .typeof_

/-- The lexeme of a number. One that is not finite is printed as a name. -/
def numberLexeme (value : Double) : Lexeme :=
  if value.isFinite then { kind := .number value } else .word "Infinity"

theorem isIdentifier_infinity : IsIdentifier "Infinity" := by
  constructor <;> decide +kernel

/-- The lexeme of the key of a property. -/
def keyLexeme (key : String) : Lexeme := if isIdentifierText key then .word key else .string key

/-- The lexemes of a member behind those of its object. -/
def memberLexemes (object property : List Lexeme) (computed optional : Bool) : List Lexeme :=
  match computed, optional with
  | true, true =>
    object ++ .mark .optionalChain :: .mark .leftBracket :: property ++ [.mark .rightBracket]
  | true, false => object ++ .mark .leftBracket :: property ++ [.mark .rightBracket]
  | false, true => object ++ .mark .optionalChain :: property
  | false, false => object ++ .mark .dot :: property

/-- The lexemes of an imported name. -/
def ImportSpecifier.lexemes (s : ImportSpecifier) : List Lexeme :=
  if s.imported = s.localName then [.word s.localName]
  else [.word s.imported, .word "as", .word s.localName]

/-- The lexemes of what an import takes from its source: a default, and names in braces. -/
def importClauses (defaultName : Option String) (specifiers : List ImportSpecifier) :
    List (List Lexeme) :=
  defaultName.toList.map (fun x => [.word x]) ++
    if specifiers.isEmpty then []
    else [.mark .leftBrace :: commaLexemes (specifiers.map ImportSpecifier.lexemes) ++
      [.mark .rightBrace]]

/-- The lexemes of an import. -/
def importLexemes (defaultName : Option String) (specifiers : List ImportSpecifier)
    (source : String) : List Lexeme :=
  let clauses := importClauses defaultName specifiers
  if clauses.isEmpty then [.keyword .import_, .string source, .mark .semicolon]
  else .keyword .import_ :: commaLexemes clauses ++
    [.word "from", .string source, .mark .semicolon]

/-- The lexemes of parameters. -/
def paramLexemes (params : List String) : List Lexeme :=
  .mark .leftParen :: commaLexemes (params.map fun x => [.word x]) ++ [.mark .rightParen]

/-! ### Expressions and statements -/

mutual

/-- The lexemes of an expression. -/
def Expr.lexemes : Expr → List Lexeme
  | .number value _ => [numberLexeme value]
  | .string value _ => [.string value]
  | .boolean value _ => [{ kind := .boolean value }]
  | .null _ => [{ kind := .null }]
  | .this_ _ => [.keyword .this_]
  | .identifier name _ => [.word name]
  | .binary left op right _ =>
    lexemesParenthesisedIf (op == .nullish && left.isLogical)
        (left.lexemesInPlace (Level.binary op) left.lexemes) ++
      .mark op.symbol ::
      lexemesParenthesisedIf (op == .nullish && right.isLogical)
        (right.lexemesInPlace (Level.binary op + 1) right.lexemes)
  | .unary op operand _ => op.lexeme :: operand.lexemesInPlace Level.unary operand.lexemes
  | .update op inFront operand _ =>
    if inFront then .mark op.symbol :: operand.lexemesInPlace Level.unary operand.lexemes
    else operand.lexemesInPlace Level.call operand.lexemes ++
      [{ kind := .symbol op.symbol, sameLine := true }]
  | .member object property computed optional _ =>
    memberLexemes
      (lexemesParenthesisedIf object.isNumber (object.lexemesInPlace Level.call object.lexemes))
      (property.lexemesInPlace Level.any property.lexemes) computed optional
  | .call callee arguments _ =>
    callee.lexemesInPlace Level.call callee.lexemes ++
      .mark .leftParen :: commaLexemes (exprsLexemes arguments) ++ [.mark .rightParen]
  | .new callee arguments _ =>
    .keyword .new_ ::
      lexemesParenthesisedIf callee.isCall (callee.lexemesInPlace Level.call callee.lexemes) ++
      .mark .leftParen :: commaLexemes (exprsLexemes arguments) ++ [.mark .rightParen]
  | .conditional test consequent alternate _ =>
    test.lexemesInPlace (Level.conditional + 1) test.lexemes ++
      .mark .question :: consequent.lexemesInPlace Level.assignment consequent.lexemes ++
      .mark .colon :: alternate.lexemesInPlace Level.assignment alternate.lexemes
  | .object properties _ =>
    .mark .leftBrace :: commaLexemes (propertiesLexemes properties) ++ [.mark .rightBrace]
  | .array items _ =>
    .mark .leftBracket :: commaLexemes (exprsLexemes items) ++ [.mark .rightBracket]
  | .arrow params body _ => paramLexemes params ++ .mark .arrow :: body.lexemes
  | .assignment target op value _ =>
    target.lexemesInPlace Level.call target.lexemes ++
      .mark op.symbol :: value.lexemesInPlace Level.assignment value.lexemes

/-- The lexemes of expressions in a list. -/
def exprsLexemes : List Expr → List (List Lexeme)
  | [] => []
  | e :: rest => e.lexemesInPlace Level.assignment e.lexemes :: exprsLexemes rest

/-- The lexemes of the properties of an object. -/
def propertiesLexemes : List Property → List (List Lexeme)
  | [] => []
  | ⟨key, value, shorthand⟩ :: rest =>
    (if shorthand then [.word key]
      else keyLexeme key :: .mark .colon :: value.lexemesInPlace Level.assignment value.lexemes) ::
      propertiesLexemes rest

/-- The lexemes of the body of an arrow function. -/
def ArrowBody.lexemes : ArrowBody → List Lexeme
  | .expression value => guardLexemes (value.lexemesInPlace Level.assignment value.lexemes)
  | .block body => .mark .leftBrace :: stmtsLexemes body ++ [.mark .rightBrace]

/-- The lexemes of a statement. -/
def Stmt.lexemes : Stmt → List Lexeme
  | .expression value =>
    guardLexemes (value.lexemesInPlace Level.any value.lexemes) ++ [.mark .semicolon]
  | .declaration kind ds =>
    .keyword kind.keyword :: commaLexemes (declaratorsLexemes ds) ++ [.mark .semicolon]
  | .function name params body decorator =>
    decoratorLexemes? decorator ++ .keyword .function_ :: .word name :: paramLexemes params ++
      .mark .leftBrace :: stmtsLexemes body ++ [.mark .rightBrace]
  | .return_ none => [.keyword .return_, .mark .semicolon]
  | .return_ (some value) =>
    .keyword .return_ :: onSameLine (value.lexemesInPlace Level.any value.lexemes) ++
      [.mark .semicolon]
  | .if_ test consequent alternate =>
    .keyword .if_ :: .mark .leftParen :: test.lexemesInPlace Level.any test.lexemes ++
      .mark .rightParen :: consequent.lexemes ++ elseLexemes alternate
  | .while_ test body =>
    .keyword .while_ :: .mark .leftParen :: test.lexemesInPlace Level.any test.lexemes ++
      .mark .rightParen :: body.lexemes
  | .for_ init test update body =>
    .keyword .for_ :: .mark .leftParen :: forInitLexemes init ++
      .mark .semicolon :: forPartLexemes test ++ .mark .semicolon :: forPartLexemes update ++
      .mark .rightParen :: body.lexemes
  | .block body => .mark .leftBrace :: stmtsLexemes body ++ [.mark .rightBrace]
  | .break_ => [.keyword .break_, .mark .semicolon]
  | .continue_ => [.keyword .continue_, .mark .semicolon]
  | .import_ defaultName specifiers source => importLexemes defaultName specifiers source
  | .export_ declared => .keyword .export_ :: declared.lexemes
  | .empty => [.mark .semicolon]
  | .elementStart name attributes _ =>
    .mark .tagStart :: .name name :: attributesLexemes attributes ++ [.mark .tagEnd]
  | .elementEnd name _ => [.mark .tagStart, .mark .slash, .name name, .mark .tagEnd]
  | .element name attributes _ =>
    .mark .tagStart :: .name name :: attributesLexemes attributes ++
      [.mark .slash, .mark .tagEnd]
  | .decorator value => value.lexemes

/-- The lexemes of statements, each on a line of its own. -/
def stmtsLexemes : List Stmt → List Lexeme
  | [] => []
  | s :: rest => s.lexemes ++ onNewLine (stmtsLexemes rest)

/-- The lexemes of the part of an `if` from the word `else` on. -/
def elseLexemes : Option Stmt → List Lexeme
  | none => []
  | some s => .keyword .else_ :: s.lexemes

/-- The lexemes of the first part of the head of a `for`. -/
def forInitLexemes : Option Stmt → List Lexeme
  | some (.declaration kind ds) =>
    .keyword kind.keyword :: commaLexemes (declaratorsLexemes ds)
  | some (.expression value) => value.lexemesInPlace Level.any value.lexemes
  | _ => []

/-- The lexemes of the second or third part of the head of a `for`. -/
def forPartLexemes : Option Expr → List Lexeme
  | none => []
  | some e => e.lexemesInPlace Level.any e.lexemes

/-- The lexemes of declared variables. -/
def declaratorsLexemes : List Declarator → List (List Lexeme)
  | [] => []
  | ⟨name, none⟩ :: rest => [.word name] :: declaratorsLexemes rest
  | ⟨name, some init⟩ :: rest =>
    (.word name :: .mark .assign :: init.lexemesInPlace Level.assignment init.lexemes) ::
      declaratorsLexemes rest

/-- The lexemes of the attributes of a tag. -/
def attributesLexemes : List Attribute → List Lexeme
  | [] => []
  | .bare name :: rest => .name name :: attributesLexemes rest
  | .text name value :: rest =>
    .name name :: .mark .assign :: .string value :: attributesLexemes rest
  | .braced name value :: rest =>
    .name name :: .mark .assign :: .mark .leftBrace ::
      value.lexemesInPlace Level.any value.lexemes ++ .mark .rightBrace :: attributesLexemes rest

/-- The lexemes of a decorator. -/
def Decorator.lexemes : Decorator → List Lexeme
  | ⟨name, arguments, _⟩ =>
    .mark .decorator :: .word name :: .mark .leftParen ::
      commaLexemes (exprsLexemes arguments) ++ [.mark .rightParen]

/-- The lexemes of the decorator of a function. -/
def decoratorLexemes? : Option Decorator → List Lexeme
  | none => []
  | some d => d.lexemes

end

/-! ### Items of lists -/

/-- The lexemes of a property. -/
def Property.lexemes (p : Property) : List Lexeme :=
  if p.shorthand then [.word p.key] else keyLexeme p.key :: .mark .colon :: p.value.lexemes

/-- The lexemes of a declared variable. -/
def Declarator.lexemes (d : Declarator) : List Lexeme :=
  match d.init with
  | none => [.word d.name]
  | some e => .word d.name :: .mark .assign :: e.lexemes

/-- The lexemes of an attribute. -/
def Attribute.lexemes : Attribute → List Lexeme
  | .bare name => [.name name]
  | .text name value => [.name name, .mark .assign, .string value]
  | .braced name value =>
    .name name :: .mark .assign :: .mark .leftBrace :: value.lexemes ++ [.mark .rightBrace]

theorem Expr.one_le_level (e : Expr) : 1 ≤ e.level := by
  cases e with
  | binary l op r s => simp only [Expr.level, Level.binary, Level.conditional]; omega
  | update op inFront e s => cases inFront <;> exact Nat.succ_pos _
  | _ => exact Nat.succ_pos _

/-- Any expression may stand where an assignment may. -/
@[simp] theorem Expr.lexemesInPlace_assignment (e : Expr) (ls : List Lexeme) :
    e.lexemesInPlace Level.assignment ls = ls := by
  have h : ¬e.level < Level.assignment := Nat.not_lt.mpr e.one_le_level
  simp [lexemesInPlace, lexemesParenthesisedIf, h]

@[simp] theorem Expr.lexemesInPlace_any (e : Expr) (ls : List Lexeme) :
    e.lexemesInPlace Level.any ls = ls := by
  simp [lexemesInPlace, lexemesParenthesisedIf, Level.any]

theorem exprsLexemes_eq (es : List Expr) : exprsLexemes es = es.map Expr.lexemes := by
  induction es with
  | nil => rfl
  | cons e es ih => simp [exprsLexemes, ih]

theorem propertiesLexemes_eq (ps : List Property) :
    propertiesLexemes ps = ps.map Property.lexemes := by
  induction ps with
  | nil => rfl
  | cons p ps ih =>
    obtain ⟨key, value, shorthand⟩ := p
    simp [propertiesLexemes, Property.lexemes, ih]

theorem declaratorsLexemes_eq (ds : List Declarator) :
    declaratorsLexemes ds = ds.map Declarator.lexemes := by
  induction ds with
  | nil => rfl
  | cons d ds ih =>
    obtain ⟨name, _ | init⟩ := d <;> simp [declaratorsLexemes, Declarator.lexemes, ih]

theorem attributesLexemes_eq (as : List Attribute) :
    attributesLexemes as = (as.map Attribute.lexemes).flatten := by
  induction as with
  | nil => rfl
  | cons a as ih => cases a <;> simp [attributesLexemes, Attribute.lexemes, ih]

end MarkupScript
