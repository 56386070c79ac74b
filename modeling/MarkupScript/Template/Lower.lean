import MarkupScript.Tree.ArrowBlocks

/-!
# Template functions

A function with a decorator is a template function. Lowering gives it the render context as its
first parameter and turns its markup into calls of instructions, in place:

* a start tag and an end tag become `ΘelementStart` and `ΘelementEnd`,
* a tag that is an element of its own becomes `Θelement`,
* a literal that is a statement becomes `Θtext`.

Each call carries an index. The calls of a function other than `ΘelementEnd` count from zero in
document order, and `ΘelementEnd` repeats the index of the element it ends. Markup that belongs to
no template function stays: that of plain functions, of arrow functions and of the program itself.

The instructions that were used are imported at the beginning of the program.
-/

namespace MarkupScript

/-- The instructions that markup is turned into. -/
inductive Instruction where
  | element | elementEnd | elementStart | text
  deriving DecidableEq, Repr

namespace Instruction

/-- The name of the function that carries out an instruction. -/
def name : Instruction → String
  | element => "Θelement"
  | elementEnd => "ΘelementEnd"
  | elementStart => "ΘelementStart"
  | text => "Θtext"

/-- All instructions, in the order of their names. -/
def all : List Instruction := [element, elementEnd, elementStart, text]

end Instruction

/-- What a compilation can be told. -/
structure Options where
  /-- The module that instructions are imported from. -/
  runtimeModule : String := "fw-x"
  /-- The name of the first parameter of template functions. -/
  renderContext : String := "$renderContext"
  /-- Whether warnings are errors. -/
  denyWarnings : Bool := false
  deriving DecidableEq

/-- An end tag in a template function where no element is open. -/
structure LowerError where
  /-- The name in the tag. -/
  tag : String
  line : Nat
  column : Nat
  /-- The template function. -/
  function : String
  deriving DecidableEq

namespace LowerError

/-- What a message says about an error. -/
def detail (e : LowerError) : String :=
  "Closing tag </" ++ e.tag ++ "> at line " ++ toString e.line ++ ", column " ++
    toString e.column ++ " has no matching opening tag in template function '" ++ e.function ++ "'"

/-- The full message. -/
def message (e : LowerError) : String := "Codegen error: " ++ e.detail

end LowerError

/-- A template function on the way through it. -/
structure Template where
  function : String
  /-- The next free index. -/
  nextIndex : Nat
  /-- The indices of the open elements, innermost first. -/
  openElements : List Nat

/-- What is known on the way through a program. -/
structure Lowering where
  /-- The instructions used so far. -/
  used : List Instruction
  /-- The template function whose markup comes next, if that is in one. -/
  template : Option Template

/-- A walk through a program that turns markup into instructions. -/
abbrev Lower := StateT Lowering (Except LowerError)

/-! ### Instruction calls -/

/-- The name and value of attributes in turn. An attribute without a value has the empty text. -/
def attributeItems (span : Span) : List Attribute → List Expr
  | [] => []
  | .bare name :: rest => .string name span :: .string "" span :: attributeItems span rest
  | .text name value :: rest =>
    .string name span :: .string value span :: attributeItems span rest
  | .braced name value :: rest => .string name span :: value :: attributeItems span rest

/-- What an instruction is told about an element: its name and, if it has any, its attributes. -/
def elementArguments (name : String) (attributes : List Attribute) (span : Span) : List Expr :=
  .string name span ::
    if attributes.isEmpty then [] else [.array (attributeItems span attributes) span]

/-- A call of an instruction with the render context, an index and further arguments. -/
def Options.instructionCall (options : Options) (instruction : Instruction) (index : Nat)
    (arguments : List Expr) (span : Span) : Stmt :=
  .expression
    (.call (.identifier instruction.name span)
      (.identifier options.renderContext span :: .number (.ofNat index) span :: arguments) span)

namespace Lower

/-- Notes that an instruction is used. -/
def use (instruction : Instruction) : Lower Unit :=
  modify fun s => { s with used := instruction :: s.used }

/-- Goes through a part that belongs to another template function, or to none. -/
def within (template : Option Template) (part : Lower α) : Lower α := do
  let outer := (← get).template
  modify fun s => { s with template := template }
  let result ← part
  modify fun s => { s with template := outer }
  return result

/-- Puts an instruction with the next index in the place of a piece of markup. If the piece starts
an element, that is open from here on. -/
def instruct (options : Options) (t : Template) (instruction : Instruction)
    (arguments : List Expr) (span : Span) : Lower Stmt := do
  use instruction
  let isOpen := instruction == .elementStart
  let t' : Template :=
    { t with
      nextIndex := t.nextIndex + 1
      openElements := if isOpen then t.nextIndex :: t.openElements else t.openElements }
  modify fun s => { s with template := some t' }
  return options.instructionCall instruction t.nextIndex arguments span

/-- Puts the end of the innermost open element in the place of an end tag. -/
def instructEnd (options : Options) (t : Template) (name : String) (span : Span) :
    Lower Stmt := do
  match t.openElements with
  | [] => throw ⟨name, span.line, span.column, t.function⟩
  | index :: outer =>
    use .elementEnd
    modify fun s => { s with template := some { t with openElements := outer } }
    return options.instructionCall .elementEnd index [] span

/-- Lowers a statement without parts: a piece of markup becomes an instruction if it belongs to a
template function, and anything else stays. -/
def leaf (options : Options) (s : Stmt) : Lower Stmt := do
  match (← get).template with
  | none => return s
  | some t =>
    match s with
    | .elementStart name attributes span =>
      instruct options t .elementStart (elementArguments name attributes span) span
    | .elementEnd name span => instructEnd options t name span
    | .element name attributes span =>
      instruct options t .element (elementArguments name attributes span) span
    | .expression value =>
      if value.isLiteral then instruct options t .text [value] value.span else return s
    | _ => return s

end Lower

/-! ### Statements -/

section

-- What to do with an arrow block.
variable (inner : List Stmt → Lower (List Stmt)) (options : Options)

mutual

/-- Lowers a statement. -/
def Stmt.lower : Stmt → Lower Stmt
  | .function name params body (some _) => do
    let body ← Lower.within (some ⟨name, 0, []⟩) (lowerAll body)
    return .function name (options.renderContext :: params) body none
  | .function name params body none =>
    return .function name params (← Lower.within none (lowerAll body)) none
  | .export_ declared => return .export_ (← declared.lower)
  | .block body => return .block (← lowerAll body)
  | .if_ test consequent alternate =>
    return .if_ (← test.mapArrowBlocks inner) (← consequent.lower) (← lower? alternate)
  | .while_ test body => return .while_ (← test.mapArrowBlocks inner) (← body.lower)
  | .for_ init test update body =>
    return .for_ (← stmtMapArrowBlocks? inner init) (← exprMapArrowBlocks? inner test)
      (← exprMapArrowBlocks? inner update) (← body.lower)
  | s => do Lower.leaf options (← s.mapArrowBlocks inner)

/-- Lowers statements. -/
def lowerAll : List Stmt → Lower (List Stmt)
  | [] => return []
  | s :: rest => return (← s.lower) :: (← lowerAll rest)

/-- Lowers a statement that may be missing. -/
def lower? : Option Stmt → Lower (Option Stmt)
  | none => return none
  | some s => return some (← s.lower)

end

end

/-- Lowers statements that belong to no template function and whose arrow blocks lie less than
`depth` deep. -/
def lowerBody (options : Options) : (depth : Nat) → List Stmt → Lower (List Stmt)
  | 0, body => return body
  | depth + 1, body => Lower.within none (lowerAll (lowerBody options depth) options body)

/-- The import of instructions, if any were used. -/
def Options.instructionImport (options : Options) (used : List Instruction) : List Stmt :=
  let needed := Instruction.all.filter (used.contains ·)
  if needed.isEmpty then []
  else [.import_ none (needed.map fun i => ⟨i.name, i.name⟩) options.runtimeModule]

/-- Turns the markup of every template function into instructions. -/
def Program.lowerTemplates (p : Program) (options : Options) : Except LowerError Program := do
  let (body, s) ← (lowerBody options (p.arrowDepth + 1) p.body).run ⟨[], none⟩
  return ⟨options.instructionImport s.used ++ body⟩

end MarkupScript
