import MarkupScript.Proofs.Tree.Elements
import MarkupScript.Tree.Print

/-!
# Well-formed trees

Not every tree can be read from a source: names have to be names, only variables and properties
are assigned to, and an `else` belongs to the nearest `if`. `Program.WellFormed` collects what holds
of every tree that was parsed.
-/

namespace MarkupScript

/-! ### Names and numbers -/

/-- A text that is read as an identifier: a word that is no keyword and no literal. -/
def IsIdentifier (x : String) : Prop := isIdentifierText x = true ∧ Kind.ofWord x = .identifier x

/-- Whether a text can stand as the name of a tag or attribute. -/
def isTagName (x : String) : Bool :=
  match x.toList with
  | [] => false
  | c :: cs => isNameStart c && cs.all isNamePart

/-- Whether a double can be the value of a number literal, which has no sign. -/
def Double.isUnsigned : Double → Bool
  | infinite negative => !negative
  | finite negative _ => !negative
  | nan => false

/-- What holds of every token that was read. -/
def Kind.WellFormed : Kind → Prop
  | identifier x => IsIdentifier x
  | name x => isTagName x = true
  | number value => value.isUnsigned = true
  | _ => True

/-! ### Parts of trees -/

/-- Whether an expression is the name behind a dot, which may be any word. -/
def Expr.isWord : Expr → Bool
  | .identifier name _ => isIdentifierText name
  | _ => false

/-- Whether an `else` behind a statement would belong to it. -/
def Stmt.endsOpen : Stmt → Bool
  | .if_ _ _ none => true
  | .if_ _ _ (some alternate) => alternate.endsOpen
  | .while_ _ body => body.endsOpen
  | .for_ _ _ _ body => body.endsOpen
  | _ => false

/-- Whether a loop can start with a statement. -/
def Stmt.isForInit : Stmt → Bool
  | .declaration _ _ | .expression _ => true
  | _ => false

/-- Whether a statement can be exported. -/
def Stmt.isDeclaration : Stmt → Bool
  | .declaration _ _ | .function _ _ _ _ => true
  | _ => false

/-- A name taken from a module is a word; another name for it is an identifier. -/
def ImportSpecifier.WellFormed (s : ImportSpecifier) : Prop :=
  isIdentifierText s.imported = true ∧ (s.imported = s.localName ∨ IsIdentifier s.localName)

mutual

/-- What holds of every expression that was parsed. -/
def Expr.WellFormed : Expr → Prop
  | .number value _ => value.isUnsigned = true
  | .string _ _ | .boolean _ _ | .null _ | .this_ _ => True
  | .identifier name _ => IsIdentifier name
  | .binary left _ right _ => left.WellFormed ∧ right.WellFormed
  | .unary _ operand _ => operand.WellFormed
  | .update _ _ operand _ => operand.isTarget = true ∧ operand.WellFormed
  | .member object property computed optional _ =>
    object.WellFormed ∧
      if computed then property.WellFormed ∧ optional = false else property.isWord = true
  | .call callee arguments _ => callee.WellFormed ∧ exprsWellFormed arguments
  | .new callee arguments _ => callee.WellFormed ∧ exprsWellFormed arguments
  | .conditional test consequent alternate _ =>
    test.WellFormed ∧ consequent.WellFormed ∧ alternate.WellFormed
  | .object properties _ => propertiesWellFormed properties
  | .array items _ => exprsWellFormed items
  | .arrow params body _ => (∀ x ∈ params, IsIdentifier x) ∧ body.WellFormed
  | .assignment target _ value _ =>
    target.isTarget = true ∧ target.WellFormed ∧ value.WellFormed

/-- What holds of expressions in a list. -/
def exprsWellFormed : List Expr → Prop
  | [] => True
  | e :: rest => e.WellFormed ∧ exprsWellFormed rest

/-- What holds of an expression that may be missing. -/
def exprWellFormed? : Option Expr → Prop
  | none => True
  | some e => e.WellFormed

/-- What holds of the properties of an object. -/
def propertiesWellFormed : List Property → Prop
  | [] => True
  | ⟨key, value, shorthand⟩ :: rest =>
    (if shorthand then IsIdentifier key ∧ ∃ span, value = .identifier key span
      else value.WellFormed) ∧ propertiesWellFormed rest

/-- What holds of the body of an arrow function. -/
def ArrowBody.WellFormed : ArrowBody → Prop
  | .expression value => value.WellFormed
  | .block body => stmtsWellFormed body ∧ Paired body

/-- What holds of every statement that was parsed. -/
def Stmt.WellFormed : Stmt → Prop
  | .expression value => value.WellFormed
  | .declaration _ ds => ds ≠ [] ∧ declaratorsWellFormed ds
  | .function name params body decorator =>
    IsIdentifier name ∧ (∀ x ∈ params, IsIdentifier x) ∧ stmtsWellFormed body ∧ Paired body ∧
      decorator.isNone = true
  | .return_ value => exprWellFormed? value
  | .if_ test consequent alternate =>
    test.WellFormed ∧ consequent.WellFormed ∧ stmtWellFormed? alternate ∧
      (alternate.isSome = true → consequent.endsOpen = false)
  | .while_ test body => test.WellFormed ∧ body.WellFormed
  | .for_ init test update body =>
    (∀ s ∈ init, s.isForInit = true) ∧ stmtWellFormed? init ∧ exprWellFormed? test ∧
      exprWellFormed? update ∧ body.WellFormed
  | .block body => stmtsWellFormed body
  | .break_ | .continue_ | .empty => True
  | .import_ defaultName specifiers _ =>
    (∀ x ∈ defaultName, IsIdentifier x) ∧ ∀ s ∈ specifiers, s.WellFormed
  | .export_ declared => declared.isDeclaration = true ∧ declared.WellFormed
  | .elementStart name attributes _ => isTagName name = true ∧ attributesWellFormed attributes
  | .elementEnd name _ => isTagName name = true
  | .element name attributes _ => isTagName name = true ∧ attributesWellFormed attributes
  | .decorator value => value.WellFormed

/-- What holds of statements in a list. -/
def stmtsWellFormed : List Stmt → Prop
  | [] => True
  | s :: rest => s.WellFormed ∧ stmtsWellFormed rest

/-- What holds of a statement that may be missing. -/
def stmtWellFormed? : Option Stmt → Prop
  | none => True
  | some s => s.WellFormed

/-- What holds of declared variables. -/
def declaratorsWellFormed : List Declarator → Prop
  | [] => True
  | ⟨name, init⟩ :: rest => IsIdentifier name ∧ exprWellFormed? init ∧ declaratorsWellFormed rest

/-- What holds of the attributes of a tag. -/
def attributesWellFormed : List Attribute → Prop
  | [] => True
  | .bare name :: rest => isTagName name = true ∧ attributesWellFormed rest
  | .text name _ :: rest => isTagName name = true ∧ attributesWellFormed rest
  | .braced name value :: rest =>
    isTagName name = true ∧ value.WellFormed ∧ attributesWellFormed rest

/-- What holds of a decorator. -/
def Decorator.WellFormed : Decorator → Prop
  | ⟨name, arguments, _⟩ => IsIdentifier name ∧ exprsWellFormed arguments

end

/-- What holds of every program that was parsed. -/
def Program.WellFormed (p : Program) : Prop := stmtsWellFormed p.body ∧ Paired p.body

/-! ### Items of lists -/

/-- What holds of a property: a shorthand is the variable that its key names. -/
def Property.WellFormed (p : Property) : Prop :=
  if p.shorthand then IsIdentifier p.key ∧ ∃ span, p.value = .identifier p.key span
  else p.value.WellFormed

/-- What holds of a declared variable. -/
def Declarator.WellFormed (d : Declarator) : Prop := IsIdentifier d.name ∧ exprWellFormed? d.init

/-- What holds of an attribute. -/
def Attribute.WellFormed : Attribute → Prop
  | .bare name | .text name _ => isTagName name = true
  | .braced name value => isTagName name = true ∧ value.WellFormed

theorem exprsWellFormed_iff {es : List Expr} :
    exprsWellFormed es ↔ ∀ e ∈ es, e.WellFormed := by
  induction es with
  | nil => simp [exprsWellFormed]
  | cons e es ih => simp [exprsWellFormed, ih]

theorem exprWellFormed?_iff {e : Option Expr} : exprWellFormed? e ↔ ∀ x ∈ e, x.WellFormed := by
  cases e <;> simp [exprWellFormed?]

theorem propertiesWellFormed_iff {ps : List Property} :
    propertiesWellFormed ps ↔ ∀ p ∈ ps, p.WellFormed := by
  induction ps with
  | nil => simp [propertiesWellFormed]
  | cons p ps ih =>
    obtain ⟨key, value, shorthand⟩ := p
    simp [propertiesWellFormed, Property.WellFormed, ih]

theorem stmtsWellFormed_iff {ss : List Stmt} :
    stmtsWellFormed ss ↔ ∀ s ∈ ss, s.WellFormed := by
  induction ss with
  | nil => simp [stmtsWellFormed]
  | cons s ss ih => simp [stmtsWellFormed, ih]

theorem stmtWellFormed?_iff {s : Option Stmt} : stmtWellFormed? s ↔ ∀ x ∈ s, x.WellFormed := by
  cases s <;> simp [stmtWellFormed?]

theorem declaratorsWellFormed_iff {ds : List Declarator} :
    declaratorsWellFormed ds ↔ ∀ d ∈ ds, d.WellFormed := by
  induction ds with
  | nil => simp [declaratorsWellFormed]
  | cons d ds ih =>
    obtain ⟨name, init⟩ := d
    simp [declaratorsWellFormed, Declarator.WellFormed, ih, and_assoc]

theorem attributesWellFormed_iff {as : List Attribute} :
    attributesWellFormed as ↔ ∀ a ∈ as, a.WellFormed := by
  induction as with
  | nil => simp [attributesWellFormed]
  | cons a as ih => cases a <;> simp [attributesWellFormed, Attribute.WellFormed, ih, and_assoc]

end MarkupScript
